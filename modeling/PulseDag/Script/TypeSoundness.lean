import PulseDag.Script.PulseVm

/-!
# The analysis predicts the run

A run keeps in step with the analysis: its values have the types on the stack of types, its locals
have the types of the locals, and both have spent the same. Hence the only errors of an analysed
program are an overflow of its arithmetic and a budget that is too small.
-/

namespace PulseDag

open List

/-- The run is at the point that the analysis has reached after some instructions. -/
structure PulseRun.Typed (run : PulseRun) (loop : PulseAnalysisLoop) (executed : ℕ) : Prop where
  stack : run.stack.map PulseValueV1.valueType = loop.stack
  locals : ∀ slot, (run.locals slot).map PulseValueV1.valueType = loop.locals slot
  computeUnits : run.computeUnits = loop.computeUnits
  executed : run.executedInstructions = executed

/-- A run either overflows or goes on with a property. -/
def OverflowsOr (P : PulseRun → Prop) (x : Except PulseVmV1Error PulseRun) : Prop :=
  (∃ instruction, x = .error (.arithmeticOverflow instruction)) ∨ ∃ run, x = .ok run ∧ P run

variable {P : PulseRun → Prop} {instructions : List PulseInstructionV1}

/-- Steps that only fail by an overflow compose. -/
theorem OverflowsOr.bind {Q : PulseRun → Prop} {x : Except PulseVmV1Error PulseRun}
    {f : PulseRun → Except PulseVmV1Error PulseRun} (hx : OverflowsOr P x)
    (hf : ∀ run, P run → OverflowsOr Q (f run)) : OverflowsOr Q (x >>= f) := by
  rcases hx with ⟨instruction, rfl⟩ | ⟨run, rfl, hrun⟩
  · exact .inl ⟨instruction, rfl⟩
  · exact hf run hrun

/-- A step that does not overflow. -/
theorem overflowsOr_ok {run : PulseRun} (h : P run) :
    OverflowsOr P (.ok run) := .inr ⟨run, rfl, h⟩

section

variable {run : PulseRun} {loop next : PulseAnalysisLoop} {index count executed : ℕ}
  {op : PulseInstructionV1}

/-! ## Operands -/

variable {valueType result : PulseValueTypeV1} {types : List PulseValueTypeV1}
  {final : PulseAnalysisLoop}

/-- A type is popped. -/
theorem PulseAnalysisLoop.popType_eq_ok (h : loop.popType index = .ok (valueType, next)) :
    loop.stack = valueType :: next.stack ∧ next = { loop with stack := next.stack } := by
  unfold popType at h
  split at h
  · cases h
  · rename_i hstack
    cases h
    exact ⟨hstack, rfl⟩

/-- An expected type is popped. -/
theorem PulseAnalysisLoop.popExpectedType_eq_ok {expected : PulseValueTypeV1}
    (h : loop.popExpectedType expected index = .ok next) :
    loop.stack = expected :: next.stack ∧ next = { loop with stack := next.stack } := by
  simp only [popExpectedType, bind_eq_ok, Prod.exists, ensure_eq_ok, exists_const, pure_eq_ok,
    Except.ok.injEq] at h
  obtain ⟨_, _, hpop, rfl, rfl⟩ := h
  exact popType_eq_ok hpop

/-- A type is pushed. -/
theorem PulseAnalysisLoop.pushType_eq_ok (h : loop.pushType valueType = .ok next) :
    next = { loop with
      stack := valueType :: loop.stack
      maxStackValues := max loop.maxStackValues (loop.stack.length + 1) } := by
  simp only [pushType, bind_eq_ok, ensure_eq_ok, exists_const, pure_eq_ok, Except.ok.injEq] at h
  exact h.2.symm

/-- A type is stored. -/
theorem PulseAnalysisLoop.storeType_eq_ok {slot : UInt8}
    {locals : UInt8 → Option PulseValueTypeV1}
    (h : loop.storeType slot valueType index = .ok locals) :
    locals = Function.update loop.locals slot (some valueType) := by
  unfold storeType at h
  split at h
  · rename_i expected hexpected
    simp only [bind_eq_ok, ensure_eq_ok, exists_const, pure_eq_ok, Except.ok.injEq] at h
    obtain ⟨rfl, rfl⟩ := h
    exact (Function.update_eq_self_iff.mpr hexpected.symm).symm
  · exact (Except.ok.inj h).symm

/-- A value is on top of the stack where the analysis has a type on top. -/
theorem PulseRun.Typed.top (h : run.Typed loop executed)
    (htypes : loop.stack = valueType :: types) :
    ∃ value stack, run.stack = value :: stack ∧ value.valueType = valueType ∧
      stack.map PulseValueV1.valueType = types :=
  map_eq_cons_iff.mp (h.stack.trans htypes)

/-- A word is on the stack. -/
theorem PulseRun.Typed.popU64 (h : run.Typed loop executed) (index : ℕ)
    (htypes : loop.stack = .u64 :: types) : ∃ value stack,
      run.popU64 index = .ok (value, { run with stack := stack }) ∧
        { run with stack := stack }.Typed { loop with stack := types } executed := by
  obtain ⟨value, stack, hstack, htype, hrest⟩ := h.top htypes
  cases value with
  | u64 value => exact ⟨value, stack, by rw [PulseRun.popU64, hstack], hrest, h.locals,
    h.computeUnits, h.executed⟩
  | bool value => cases htype

/-- A truth value is on the stack. -/
theorem PulseRun.Typed.popBool (h : run.Typed loop executed) (index : ℕ)
    (htypes : loop.stack = .bool :: types) : ∃ value stack,
      run.popBool index = .ok (value, { run with stack := stack }) ∧
        { run with stack := stack }.Typed { loop with stack := types } executed := by
  obtain ⟨value, stack, hstack, htype, hrest⟩ := h.top htypes
  cases value with
  | u64 value => cases htype
  | bool value => exact ⟨value, stack, by rw [PulseRun.popBool, hstack], hrest, h.locals,
    h.computeUnits, h.executed⟩

/-- A push keeps the types; the bound on the stack is no part of them. -/
theorem PulseRun.Typed.push (h : run.Typed loop executed) (value : PulseValueV1)
    (hnext : loop.pushType value.valueType = .ok next) : (run.push value).Typed next executed := by
  rw [PulseAnalysisLoop.pushType_eq_ok hnext]
  exact ⟨congrArg (value.valueType :: ·) h.stack, h.locals, h.computeUnits, h.executed⟩

/-! ## One instruction -/

/-- An operation on words keeps the run typed or overflows. -/
theorem PulseRun.Typed.binaryU64 (h : run.Typed loop executed)
    {operation : UInt64 → UInt64 → Option PulseValueV1}
    (hoperation : ∀ lhs rhs, ∀ value ∈ operation lhs rhs, value.valueType = result)
    (hnext : loop.binary .u64 result index = .ok next) :
    OverflowsOr (·.Typed next executed) (run.binaryU64 index operation) := by
  simp only [PulseAnalysisLoop.binary, bind_eq_ok] at hnext
  obtain ⟨first, hfirst, second, hsecond, hpush⟩ := hnext
  obtain ⟨hrhs, hfirst⟩ := PulseAnalysisLoop.popExpectedType_eq_ok hfirst
  obtain ⟨hlhs, hsecond⟩ := PulseAnalysisLoop.popExpectedType_eq_ok hsecond
  obtain ⟨rhs, stack, hpop, htyped⟩ := h.popU64 index hrhs
  rw [← hfirst] at htyped
  obtain ⟨lhs, stack', hpop', htyped'⟩ := htyped.popU64 index hlhs
  rw [← hsecond] at htyped'
  simp only [PulseRun.binaryU64, hpop, hpop', ok_bind]
  cases hvalue : operation lhs rhs with
  | none => exact .inl ⟨index, rfl⟩
  | some value =>
    rw [← hoperation lhs rhs value hvalue] at hpush
    exact overflowsOr_ok (htyped'.push _ hpush)

/-- An operation on truth values keeps the run typed. -/
theorem PulseRun.Typed.binaryBool (h : run.Typed loop executed) (operation : Bool → Bool → Bool)
    (hnext : loop.binary .bool .bool index = .ok next) :
    OverflowsOr (·.Typed next executed) (run.binaryBool index operation) := by
  simp only [PulseAnalysisLoop.binary, bind_eq_ok] at hnext
  obtain ⟨first, hfirst, second, hsecond, hpush⟩ := hnext
  obtain ⟨hrhs, hfirst⟩ := PulseAnalysisLoop.popExpectedType_eq_ok hfirst
  obtain ⟨hlhs, hsecond⟩ := PulseAnalysisLoop.popExpectedType_eq_ok hsecond
  obtain ⟨rhs, stack, hpop, htyped⟩ := h.popBool index hrhs
  rw [← hfirst] at htyped
  obtain ⟨lhs, stack', hpop', htyped'⟩ := htyped.popBool index hlhs
  rw [← hsecond] at htyped'
  simp only [PulseRun.binaryBool, hpop, hpop', ok_bind]
  exact overflowsOr_ok (htyped'.push _ hpush)

/-- Words have their type. -/
theorem valueType_of_mem_map (word : Option UInt64) :
    ∀ value ∈ word.map PulseValueV1.u64, value.valueType = .u64 := by
  intro value hvalue
  obtain ⟨_, -, rfl⟩ := Option.map_eq_some_iff.mp hvalue
  rfl

/-- An instruction that the analysis accepts runs, and both arrive at the same point. -/
theorem PulseRun.Typed.instruction (h : run.Typed loop executed)
    (hnext : loop.instruction count index op = .ok next) :
    OverflowsOr (·.Typed next executed) (run.instruction index op) := by
  cases op with
  | pushU64 value => exact overflowsOr_ok (h.push (.u64 value) hnext)
  | pushBool value => exact overflowsOr_ok (h.push (.bool value) hnext)
  | addU64 | subU64 | mulU64 => exact h.binaryU64 (fun _ _ => valueType_of_mem_map _) hnext
  | eqU64 =>
    rw [PulseRun.instruction]
    refine h.binaryU64 (fun lhs rhs value hvalue => ?_) hnext
    obtain rfl := Option.some.inj hvalue
    rfl
  | andBool => exact h.binaryBool (· && ·) hnext
  | orBool => exact h.binaryBool (· || ·) hnext
  | notBool =>
    simp only [PulseAnalysisLoop.instruction, bind_eq_ok] at hnext
    obtain ⟨first, hfirst, hpush⟩ := hnext
    obtain ⟨hoperand, hfirst⟩ := PulseAnalysisLoop.popExpectedType_eq_ok hfirst
    obtain ⟨value, stack, hpop, htyped⟩ := h.popBool index hoperand
    rw [← hfirst] at htyped
    simp only [PulseRun.instruction, hpop, ok_bind]
    exact overflowsOr_ok (htyped.push (.bool !value) hpush)
  | dup =>
    simp only [PulseAnalysisLoop.instruction, bind_eq_ok, okOr_eq_ok] at hnext
    obtain ⟨valueType, htop, hpush⟩ := hnext
    obtain ⟨types, htypes⟩ := head?_eq_some_iff.mp htop
    obtain ⟨value, stack, hstack, rfl, -⟩ := h.top htypes
    simp only [PulseRun.instruction, hstack, head?_cons, okOr_some, ok_bind]
    exact overflowsOr_ok (h.push _ hpush)
  | drop =>
    simp only [PulseAnalysisLoop.instruction, bind_eq_ok, Prod.exists, pure_eq_ok,
      Except.ok.injEq] at hnext
    obtain ⟨_, _, hpop, rfl⟩ := hnext
    obtain ⟨htypes, hloop⟩ := PulseAnalysisLoop.popType_eq_ok hpop
    obtain ⟨value, stack, hstack, -, hrest⟩ := h.top htypes
    simp only [PulseRun.instruction, PulseRun.pop, hstack, ok_bind]
    rw [hloop]
    exact overflowsOr_ok ⟨hrest, h.locals, h.computeUnits, h.executed⟩
  | storeLocal slot =>
    simp only [PulseAnalysisLoop.instruction, bind_eq_ok, Prod.exists, pure_eq_ok,
      Except.ok.injEq] at hnext
    obtain ⟨valueType, popped, hpop, _, hslot, locals, hlocals, rfl⟩ := hnext
    obtain ⟨htypes, hloop⟩ := PulseAnalysisLoop.popType_eq_ok hpop
    obtain ⟨value, stack, hstack, rfl, hrest⟩ := h.top htypes
    simp only [PulseRun.instruction, PulseRun.pop, hstack, ok_bind, hslot]
    refine overflowsOr_ok ⟨hrest, fun slot' => ?_, ?_, h.executed⟩
    swap
    · rw [hloop]
      exact h.computeUnits
    have hkept : popped.locals = loop.locals := by rw [hloop]
    rw [PulseAnalysisLoop.storeType_eq_ok hlocals, hkept]
    by_cases hsame : slot' = slot
    · subst hsame
      simp
    · simpa [Function.update_of_ne hsame] using h.locals slot'
  | loadLocal slot =>
    simp only [PulseAnalysisLoop.instruction, bind_eq_ok, okOr_eq_ok, pure_eq_ok,
      Except.ok.injEq] at hnext
    obtain ⟨_, hslot, valueType, hlocal, pushed, hpush, rfl⟩ := hnext
    obtain ⟨value, hvalue, rfl⟩ := Option.map_eq_some_iff.mp ((h.locals slot).trans hlocal)
    simp only [PulseRun.instruction, hslot, hvalue, okOr_some, ok_bind]
    obtain ⟨hstack, hlocals, hunits, hexecuted⟩ := h.push _ hpush
    exact overflowsOr_ok ⟨hstack, hlocals, hunits, hexecuted⟩
  | halt =>
    simp only [PulseAnalysisLoop.instruction, bind_eq_ok, ensure_eq_ok, exists_const, pure_eq_ok,
      Except.ok.injEq] at hnext
    obtain ⟨-, -, rfl⟩ := hnext
    exact overflowsOr_ok ⟨h.stack, h.locals, h.computeUnits, h.executed⟩

/-! ## The bounds of the analysis -/

/-- The stack is within the recorded maximum, which only grows, and the program has not halted. -/
structure PulseAnalysisLoop.Grows (loop next : PulseAnalysisLoop) : Prop where
  stack : next.stack.length ≤ next.maxStackValues
  maxStackValues : loop.maxStackValues ≤ next.maxStackValues
  halted : next.halted = loop.halted

/-- Pushing raises the peak. -/
theorem PulseAnalysisLoop.grows_of_pushType (h : loop.pushType valueType = .ok next) :
    loop.Grows next := by
  rw [pushType_eq_ok h]
  exact ⟨le_max_right _ _, le_max_left _ _, rfl⟩

/-- So may an operation. -/
theorem PulseAnalysisLoop.grows_of_binary {operand : PulseValueTypeV1}
    (h : loop.binary operand result index = .ok next) : loop.Grows next := by
  simp only [binary, bind_eq_ok] at h
  obtain ⟨first, hfirst, second, hsecond, hpush⟩ := h
  have hpushed := grows_of_pushType hpush
  rw [(popExpectedType_eq_ok hsecond).2, (popExpectedType_eq_ok hfirst).2] at hpushed
  exact ⟨hpushed.stack, hpushed.maxStackValues, hpushed.halted⟩

/-- Every instruction but `halt` stays within the bounds. -/
theorem PulseAnalysisLoop.grows_of_instruction (hbound : loop.stack.length ≤ loop.maxStackValues)
    (hop : op ≠ .halt) (h : loop.instruction count index op = .ok next) : loop.Grows next := by
  cases op with
  | pushU64 | pushBool => exact grows_of_pushType h
  | addU64 | subU64 | mulU64 | eqU64 | andBool | orBool => exact grows_of_binary h
  | notBool =>
    simp only [PulseAnalysisLoop.instruction, bind_eq_ok] at h
    obtain ⟨first, hfirst, hpush⟩ := h
    have hpushed := grows_of_pushType hpush
    rw [(popExpectedType_eq_ok hfirst).2] at hpushed
    exact ⟨hpushed.stack, hpushed.maxStackValues, hpushed.halted⟩
  | dup =>
    simp only [PulseAnalysisLoop.instruction, bind_eq_ok] at h
    obtain ⟨valueType, -, hpush⟩ := h
    exact grows_of_pushType hpush
  | drop =>
    simp only [PulseAnalysisLoop.instruction, ok_iff, Prod.exists] at h
    obtain ⟨_, _, hpop, rfl⟩ := h
    obtain ⟨htypes, hloop⟩ := popType_eq_ok hpop
    rw [htypes, length_cons] at hbound
    rw [hloop]
    exact ⟨Nat.le_of_succ_le hbound, le_rfl, rfl⟩
  | storeLocal slot =>
    simp only [PulseAnalysisLoop.instruction, ok_iff, Prod.exists] at h
    obtain ⟨_, popped, hpop, _, -, locals, -, rfl⟩ := h
    obtain ⟨htypes, hloop⟩ := popType_eq_ok hpop
    rw [htypes, length_cons] at hbound
    rw [hloop]
    exact ⟨Nat.le_of_succ_le hbound, le_rfl, rfl⟩
  | loadLocal slot =>
    simp only [PulseAnalysisLoop.instruction, ok_iff] at h
    obtain ⟨_, -, valueType, -, pushed, hpush, rfl⟩ := h
    obtain ⟨hstack, hmax, hhalted⟩ := grows_of_pushType hpush
    exact ⟨hstack, hmax, hhalted⟩
  | halt => exact absurd rfl hop

/-- `halt` is the last instruction and leaves one value. -/
theorem PulseAnalysisLoop.instruction_halt (h : loop.instruction count index .halt = .ok next) :
    index + 1 = count ∧ loop.stack.length = 1 ∧ next = { loop with halted := true } := by
  simp only [PulseAnalysisLoop.instruction, bind_eq_ok, ensure_eq_ok, exists_const, pure_eq_ok,
    Except.ok.injEq] at h
  obtain ⟨⟨hlast, -⟩, hlength, rfl⟩ := h
  exact ⟨hlast, hlength, rfl⟩

/-! ## Runs -/

/-- Where the analysis goes, the run can pay. -/
theorem PulseRun.Typed.charge (h : run.Typed loop executed) (hexecuted : executed + 1 < 2 ^ 32)
    {computeUnits : UInt64} (hunits : checkedAdd loop.computeUnits op.computeCost =
      some computeUnits) :
    ∃ charged, run.charge op = .ok charged ∧
      charged.Typed { loop with computeUnits := computeUnits } (executed + 1) := by
  refine ⟨{ run with
    computeUnits := computeUnits, executedInstructions := run.executedInstructions + 1 }, ?_,
    h.stack, h.locals, rfl, congrArg (· + 1) h.executed⟩
  rw [← h.executed] at hexecuted
  rw [PulseRun.charge, h.computeUnits, hunits, okOr_some, ok_bind, ensure_pos hexecuted, ok_bind]
  rfl

/-- The analysis of some instructions in the middle of a program. -/
theorem analyzeFrom_grows (hcount : index + instructions.length ≤ count)
    (hbound : loop.stack.length ≤ loop.maxStackValues)
    (h : analyzeFrom count index instructions loop = .ok final) :
    final.stack.length ≤ final.maxStackValues ∧ loop.maxStackValues ≤ final.maxStackValues ∧
      (final.halted = true → loop.halted = true ∨ final.stack.length = 1) := by
  induction instructions generalizing index loop with
  | nil =>
    cases h
    exact ⟨hbound, le_rfl, .inl⟩
  | cons op rest ih =>
    rw [length_cons] at hcount
    simp only [analyzeFrom, PulseAnalysisLoop.step, bind_eq_ok] at h
    obtain ⟨next, ⟨computeUnits, -, hop⟩, hrest⟩ := h
    by_cases hhalt : op = .halt
    · subst hhalt
      obtain ⟨hlast, hone, rfl⟩ := PulseAnalysisLoop.instruction_halt hop
      obtain rfl : rest = [] := length_eq_zero_iff.mp (by omega)
      cases hrest
      exact ⟨hbound, le_rfl, fun _ => .inr hone⟩
    · have hcharged : { loop with computeUnits := computeUnits }.stack.length ≤
          { loop with computeUnits := computeUnits }.maxStackValues := hbound
      obtain ⟨hstack, hmax, hhalted⟩ :=
        PulseAnalysisLoop.grows_of_instruction hcharged hhalt hop
      obtain ⟨hfinal, hmax', hone⟩ := ih (by omega) hstack hrest
      rw [hhalted] at hone
      exact ⟨hfinal, hmax.trans hmax', hone⟩

/-- The run of some instructions that the analysis has accepted. -/
theorem analyzeFrom_sound (hcount : index + instructions.length ≤ count)
    (hmax : count ≤ pulseVmMaxInstructionsV1) (htyped : run.Typed loop index)
    (h : analyzeFrom count index instructions loop = .ok final) :
    OverflowsOr (·.Typed final (index + instructions.length))
      (executeFrom index instructions run) := by
  induction instructions generalizing index loop run with
  | nil =>
    cases h
    exact overflowsOr_ok htyped
  | cons op rest ih =>
    have hlimit : pulseVmMaxInstructionsV1 = 1024 := rfl
    rw [length_cons] at hcount
    simp only [analyzeFrom, PulseAnalysisLoop.step, ok_iff] at h
    obtain ⟨next, ⟨computeUnits, hunits, hop⟩, hrest⟩ := h
    obtain ⟨charged, hcharge, hcharged⟩ := htyped.charge (by omega) hunits
    rw [executeFrom, hcharge, ok_bind, length_cons, Nat.add_comm rest.length, ← Nat.add_assoc]
    refine (hcharged.instruction hop).bind fun after hafter => ?_
    by_cases hhalt : op = .halt
    · subst hhalt
      obtain ⟨hlast, -, rfl⟩ := PulseAnalysisLoop.instruction_halt hop
      obtain rfl : rest = [] := length_eq_zero_iff.mp (by omega)
      cases hrest
      exact overflowsOr_ok hafter
    · rw [if_neg hhalt]
      exact ih (by omega) hafter hrest

/-- Two parts are analysed in turn. -/
theorem analyzeFrom_append (count index : ℕ) (before after : List PulseInstructionV1)
    (loop : PulseAnalysisLoop) :
    analyzeFrom count index (before ++ after) loop =
      analyzeFrom count index before loop >>= analyzeFrom count (index + before.length) after := by
  induction before generalizing index loop with
  | nil => rfl
  | cons op rest ih =>
    rw [cons_append, analyzeFrom, analyzeFrom, bind_assoc]
    congr 1
    funext next
    rw [ih, length_cons, Nat.add_assoc, Nat.add_comm 1]

end

/-- The machine before the first instruction. -/
theorem typed_start : ({} : PulseRun).Typed {} 0 := ⟨rfl, fun _ => rfl, rfl, rfl⟩

/-- What the analysis of a whole program says. -/
theorem analyzeInstructions_eq_ok {analysis : PulseStaticAnalysisV1}
    (h : analyzeInstructions instructions = .ok analysis) :
    instructions.length ≤ pulseVmMaxInstructionsV1 ∧
      ∃ loop, analyzeFrom instructions.length 0 instructions {} = .ok loop ∧
        loop.stack = [analysis.resultType] ∧ loop.computeUnits = analysis.computeUnits ∧
        loop.maxStackValues = analysis.maxStackValues := by
  simp only [analyzeInstructions, bind_eq_ok, ensure_eq_ok, exists_const, okOr_eq_ok, pure_eq_ok,
    Except.ok.injEq] at h
  obtain ⟨hlength, loop, hloop, hhalted, resultType, hresult, rfl⟩ := h
  obtain ⟨-, -, hone⟩ := analyzeFrom_grows (by omega) le_rfl hloop
  have hfresh : ¬ ({} : PulseAnalysisLoop).halted = true := Bool.false_ne_true
  obtain ⟨valueType, hstack⟩ := length_eq_one_iff.mp ((hone hhalted).resolve_left hfresh)
  rw [hstack] at hresult
  exact ⟨hlength, loop, hloop, hstack.trans (congrArg ([·]) (Option.some.inj hresult)), rfl, rfl⟩

/-- A bytecode that has been validated runs within its analysis under every valid budget: the only
errors are an overflow and a budget below the analysed cost. The result has the analysed type, the
cost is the analysed cost, and before every instruction the stack is within the analysed maximum. -/
theorem executePulseBytecodeV1_sound {bytecode : List UInt8} {analysis : PulseStaticAnalysisV1}
    {budget : ResourceBudgetV1} (hvalid : validatePulseBytecodeV1 bytecode = .ok analysis)
    (hbudget : budget.validate = .ok ()) :
    ((∃ execution, executePulseBytecodeV1 bytecode budget = .ok execution ∧
        execution.result.valueType = analysis.resultType ∧
        execution.computeUnits = analysis.computeUnits) ∨
      (∃ instruction, executePulseBytecodeV1 bytecode budget =
        .error (.arithmeticOverflow instruction)) ∨
      ∃ actual max, executePulseBytecodeV1 bytecode budget =
        .error (.computeBudgetExceeded actual max)) ∧
    ∃ program, decodeAndValidateBytecodeV1 bytecode = .ok program ∧
      ∀ before after run, program.instructions = before ++ after →
        executeFrom 0 before {} = .ok run → run.stack.length ≤ analysis.maxStackValues := by
  simp only [validatePulseBytecodeV1, bind_eq_ok, pure_eq_ok, Except.ok.injEq] at hvalid
  obtain ⟨program, hprogram, rfl⟩ := hvalid
  have hanalysis : analyzeInstructions program.instructions = .ok program.analysis := by
    simp only [decodeAndValidateBytecodeV1, bind_eq_ok, ensure_eq_ok, exists_const, pure_eq_ok,
      Except.ok.injEq, Prod.exists] at hprogram
    obtain ⟨-, _, _, -, -, _, _, -, -, _, _, -, -, _, _, -, -, _, _, -, -, _, h, rfl⟩ := hprogram
    exact h
  obtain ⟨hlength, loop, hloop, hstack, hunits, hmax⟩ := analyzeInstructions_eq_ok hanalysis
  refine ⟨?_, program, hprogram, fun before after run hsplit hrun => ?_⟩
  · simp only [executePulseBytecodeV1, hbudget, Except.mapError, ok_bind, hprogram]
    by_cases hcost : program.analysis.computeUnits ≤ budget.computeUnits
    · rw [ensure_pos hcost, ok_bind]
      rcases analyzeFrom_sound (Nat.zero_add _).le hlength typed_start hloop with
        ⟨instruction, hoverflow⟩ | ⟨run, hrun, htyped⟩
      · rw [hoverflow]
        exact .inr (.inl ⟨instruction, rfl⟩)
      · obtain ⟨value, hvalue, htype⟩ := map_eq_singleton_iff.mp (htyped.stack.trans hstack)
        have hspent := htyped.computeUnits.trans hunits
        rw [hrun, ok_bind, ensure_pos hspent, ok_bind, hspent, ensure_pos hcost, ok_bind, hvalue]
        exact .inl ⟨_, rfl, htype, rfl⟩
    · rw [ensure_neg hcost]
      exact .inr (.inr ⟨_, _, rfl⟩)
  · rw [hsplit, analyzeFrom_append, bind_eq_ok] at hloop
    obtain ⟨middle, hmiddle, hafter⟩ := hloop
    rw [length_append] at hmiddle hafter
    obtain ⟨hbound, -, -⟩ := analyzeFrom_grows (by omega) le_rfl hmiddle
    obtain ⟨-, hgrows, -⟩ := analyzeFrom_grows (by omega) hbound hafter
    rw [hsplit, length_append] at hlength
    rcases analyzeFrom_sound (by omega) hlength typed_start hmiddle with
      ⟨_, herror⟩ | ⟨_, hok, htyped⟩
    · rw [hrun] at herror
      cases herror
    · obtain rfl := Except.ok.inj (hrun.symm.trans hok)
      have hsame := congrArg List.length htyped.stack
      rw [length_map] at hsame
      omega

/-- `push_u64 2`, `push_u64 3`, `add_u64`, `push_u64 5`, `eq_u64`, `halt`. -/
def goldenBytecode : List UInt8 :=
  [0x50, 0x44, 0x50, 0x53, 1, 0, 1, 0, 6, 0, 0, 0, 1, 2, 0, 0, 0, 0, 0, 0, 0, 1, 3, 0, 0, 0, 0, 0,
    0, 0, 0x10, 1, 5, 0, 0, 0, 0, 0, 0, 0, 0x13, 0xff]

/-- A program runs to its result. -/
theorem executePulseBytecodeV1_sound_golden :
    ∃ analysis execution, validatePulseBytecodeV1 goldenBytecode = .ok analysis ∧
      executePulseBytecodeV1 goldenBytecode ⟨1, 6, 0, 0, 0, 0⟩ = .ok execution ∧
      execution.result = .bool true ∧ execution.computeUnits = analysis.computeUnits := by
  have hvalid : ((validatePulseBytecodeV1 goldenBytecode).toOption.map fun analysis =>
      (analysis.computeUnits, analysis.resultType)) = some (6, .bool) := by decide +kernel
  have hbudget : (ResourceBudgetV1.validate ⟨1, 6, 0, 0, 0, 0⟩).toOption = some () := by
    decide +kernel
  have hrun : ((executePulseBytecodeV1 goldenBytecode ⟨1, 6, 0, 0, 0, 0⟩).toOption.map
      PulseVmExecutionV1.result) = some (.bool true) := by decide +kernel
  simp only [Option.map_eq_some_iff] at hvalid hrun
  obtain ⟨analysis, hanalysis, -⟩ := hvalid
  obtain ⟨execution, hexecution, hresult⟩ := hrun
  have hanalysis := eq_ok_of_toOption hanalysis
  have hexecution := eq_ok_of_toOption hexecution
  obtain ⟨⟨_, hok, -, hunits⟩ | ⟨_, herror⟩ | ⟨_, _, herror⟩, -⟩ :=
    executePulseBytecodeV1_sound hanalysis (eq_ok_of_toOption hbudget)
  · obtain rfl := Except.ok.inj (hexecution.symm.trans hok)
    exact ⟨analysis, execution, hanalysis, hexecution, hresult, hunits⟩
  all_goals
    rw [hexecution] at herror
    cases herror

end PulseDag
