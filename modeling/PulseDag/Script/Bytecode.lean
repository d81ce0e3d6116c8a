import PulseDag.Core.Identity
import PulseDag.Script.TypeSoundness

/-!
# Bytecode is canonical

Every program has one bytecode: what the decoder accepts is what the encoder writes for the
instructions that were read. So the compiler cannot fail once it has analysed its program, and a
fingerprint stands for one program.
-/

namespace PulseDag

open List

/-! ## The compiler -/

/-- `source.replace("\r\n", "\n").replace('\r', "\n")`. -/
def canonicalNewlines : List Char → List Char
  | [] => []
  | '\r' :: '\n' :: rest => '\n' :: canonicalNewlines rest
  | c :: rest => (if c = '\r' then '\n' else c) :: canonicalNewlines rest

/-- `str::lines`, for a text without carriage returns. -/
def sourceLines (source : List Char) : List (List Char) :=
  let parts := source.splitOn '\n'
  if parts.getLast? = some [] then parts.dropLast else parts

/-- `str::split_whitespace`. -/
def splitWhitespace (text : List Char) : List (List Char) :=
  (text.splitOnP isWhitespace).filter (· ≠ [])

/-- `parse_local_index`. -/
def parseLocalIndex (token : List Char) (line : ℕ) : Except PulseVmV1Error UInt8 := do
  let index ← okOr ((parseU64 token).filter (·.toNat < 2 ^ 16)) (.invalidLiteral line)
  ensure (index.toNat < pulseVmMaxLocalSlotsV1)
    (.localIndexOutOfRange index.toNat (pulseVmMaxLocalSlotsV1 - 1))
  pure index.toUInt8

/-- `parse_source_instruction`. -/
def parseSourceInstruction (tokens : List (List Char)) (line : ℕ) :
    Except PulseVmV1Error PulseInstructionV1 := do
  let name ← okOr tokens.head? (.sourceSyntax line)
  let spec ← okOr (opcodeSpecForNameV1 name) (.sourceSyntax line)
  match spec.kind, tokens.tail with
  | .pushU64, [token] => do
    let value ← okOr (parseU64 token) (.invalidLiteral line)
    pure (.pushU64 value)
  | .pushBool, [token] =>
    if token = "true".toList then pure (.pushBool true)
    else if token = "false".toList then pure (.pushBool false)
    else .error (.invalidLiteral line)
  | .addU64, [] => pure .addU64
  | .subU64, [] => pure .subU64
  | .mulU64, [] => pure .mulU64
  | .eqU64, [] => pure .eqU64
  | .andBool, [] => pure .andBool
  | .orBool, [] => pure .orBool
  | .notBool, [] => pure .notBool
  | .dup, [] => pure .dup
  | .drop, [] => pure .drop
  | .storeLocal, [token] => do
    let index ← parseLocalIndex token line
    pure (.storeLocal index)
  | .loadLocal, [token] => do
    let index ← parseLocalIndex token line
    pure (.loadLocal index)
  | .halt, [] => pure .halt
  | _, _ => .error (.sourceSyntax line)

/-- What the loop of `compile_pulsescript_v1` keeps. -/
structure PulseSourceLoop where
  headerSeen : Bool := false
  instructions : List PulseInstructionV1 := []

/-- The loop body of `compile_pulsescript_v1`. -/
def parseLine (loop : PulseSourceLoop) (entry : List Char × ℕ) :
    Except PulseVmV1Error PulseSourceLoop :=
  let code := trim (entry.1.takeWhile (· ≠ '#'))
  if code = [] then pure loop
  else if loop.headerSeen = false then do
    ensure (code = "pulsescript-v1".toList) .unsupportedCompilerHeader
    pure { loop with headerSeen := true }
  else do
    ensure (loop.instructions.length < pulseVmMaxInstructionsV1)
      (.tooManyInstructions pulseVmMaxInstructionsV1)
    let instruction ← parseSourceInstruction (splitWhitespace code) (entry.2 + 1)
    pure { loop with instructions := loop.instructions ++ [instruction] }

/-- `compile_pulsescript_v1` up to the analysis. -/
def parsePulsescript (source : String) : Except PulseVmV1Error (List PulseInstructionV1) := do
  ensure (source.utf8ByteSize ≤ pulsescriptMaxRawSourceBytesV1)
    (.sourceTooLarge source.utf8ByteSize pulsescriptMaxRawSourceBytesV1)
  let canonicalSource := canonicalNewlines source.toList
  let length := (String.ofList canonicalSource).utf8ByteSize
  ensure (length ≤ pulsescriptMaxSourceBytesV1) (.sourceTooLarge length pulsescriptMaxSourceBytesV1)
  let loop ← (sourceLines canonicalSource).zipIdx.foldlM parseLine {}
  ensure (loop.headerSeen = true) .unsupportedCompilerHeader
  pure loop.instructions

/-- `CompiledPulseScriptV1`. -/
structure CompiledPulseScriptV1 where
  bytecode : List UInt8
  bytecodeFingerprint : List UInt8
  analysis : PulseStaticAnalysisV1
  deriving DecidableEq, Repr

section

variable [Crypto]

/-- `pulse_bytecode_fingerprint_v1`. -/
def pulseBytecodeFingerprintV1 (bytecode : List UInt8) : Except PulseVmV1Error (List UInt8) := do
  let _ ← decodeAndValidateBytecodeV1 bytecode
  pure (Crypto.sha256 (encodeLenPrefixedBytes (asBytes "PulseDAG:pulsescript-bytecode:v1") ++
    encodeLenPrefixedBytes bytecode))

/-- `compile_pulsescript_v1`. -/
def compilePulsescriptV1 (source : String) : Except PulseVmV1Error CompiledPulseScriptV1 := do
  let instructions ← parsePulsescript source
  let analysis ← analyzeInstructions instructions
  let bytecode ← encodeBytecodeV1 instructions
  let bytecodeFingerprint ← pulseBytecodeFingerprintV1 bytecode
  pure ⟨bytecode, bytecodeFingerprint, analysis⟩

end

/-! ## Numbers and slices -/

/-- Bytes have the encoded value. -/
theorem fromLeBytes_leBytes {n value : ℕ} (h : value < 256 ^ n) :
    fromLeBytes (leBytes n value) = value := by
  induction n generalizing value with
  | zero =>
    rw [Nat.pow_zero] at h
    exact (Nat.lt_one_iff.mp h).symm
  | succ n ih =>
    have hrest := ih (Nat.div_lt_of_lt_mul (by rwa [Nat.pow_succ, Nat.mul_comm] at h))
    rw [leBytes, fromLeBytes, hrest, UInt8.toNat_ofNat']
    omega

/-- The value of bytes is bounded. -/
theorem fromLeBytes_lt (bytes : List UInt8) : fromLeBytes bytes < 256 ^ bytes.length := by
  induction bytes with
  | nil => exact Nat.one_pos
  | cons byte rest ih =>
    have hbyte := byte.toNat_lt
    rw [fromLeBytes, length_cons, Nat.pow_succ]
    omega

/-- The value has these bytes. -/
theorem leBytes_fromLeBytes (bytes : List UInt8) :
    leBytes bytes.length (fromLeBytes bytes) = bytes := by
  induction bytes with
  | nil => rfl
  | cons byte rest ih =>
    have hbyte := byte.toNat_lt
    have hdiv : (byte.toNat + 256 * fromLeBytes rest) / 256 = fromLeBytes rest := by omega
    have hmod : (byte.toNat + 256 * fromLeBytes rest) % 256 = byte.toNat := by omega
    rw [length_cons, fromLeBytes, leBytes, hdiv, hmod, ih, UInt8.ofNat_toNat]

variable {bytes rest bytecode : List UInt8} {instruction : PulseInstructionV1}
  {instructions : List PulseInstructionV1}

/-- Reading splits the bytes. -/
theorem readExact_eq_ok {n : ℕ} {front : List UInt8} :
    readExact n bytes = .ok (front, rest) ↔ bytes = front ++ rest ∧ front.length = n := by
  unfold readExact
  split
  · rename_i hle
    rw [Except.ok.injEq, Prod.mk.injEq]
    constructor
    · rintro ⟨rfl, rfl⟩
      exact ⟨(take_append_drop n bytes).symm, length_take_of_le hle⟩
    · rintro ⟨rfl, rfl⟩
      exact ⟨take_left, drop_left⟩
  · rename_i hlt
    constructor
    · intro h
      cases h
    · rintro ⟨rfl, rfl⟩
      rw [length_append] at hlt
      omega

/-! ## One instruction -/

/-- The bytes of an instruction. -/
def PulseInstructionV1.code (instruction : PulseInstructionV1) : List UInt8 :=
  instruction.spec.opcode :: instruction.operand

/-- The locals of an instruction exist. -/
def PulseInstructionV1.SlotInRange : PulseInstructionV1 → Prop
  | storeLocal slot | loadLocal slot => slot.toNat < pulseVmMaxLocalSlotsV1
  | _ => True

/-- The length of an operand. -/
theorem PulseInstructionV1.length_operand (instruction : PulseInstructionV1) :
    instruction.operand.length = instruction.spec.operandBytes := by
  cases instruction <;> rfl

/-- The length of a code. -/
theorem PulseInstructionV1.length_code_le (instruction : PulseInstructionV1) :
    instruction.code.length ≤ 9 := by
  have hoperand : ∀ kind, (opcodeSpecForKindV1 kind).operandBytes ≤ 8 := by
    intro kind
    cases kind <;> decide
  rw [code, length_cons, length_operand]
  exact Nat.succ_le_succ (hoperand _)

/-- An instruction has its code. -/
theorem encodeInstruction_eq (instruction : PulseInstructionV1) :
    encodeInstruction instruction = .ok instruction.code := by
  rw [encodeInstruction, ensure_pos instruction.length_operand]
  rfl

/-- The operand of an instruction is read back. -/
theorem decodeOperand_operand (h : instruction.SlotInRange) :
    decodeOperand instruction.kind instruction.operand = .ok instruction := by
  cases instruction with
  | pushU64 value =>
    have hvalue : fromLeBytes (u64LeBytes value) = value.toNat := fromLeBytes_leBytes value.toNat_lt
    have hlength : (u64LeBytes value).length = 8 := length_leBytes 8 _
    show (do
      ensure ((u64LeBytes value).length = 8) PulseVmV1Error.opcodeTableInvariant
      pure (PulseInstructionV1.pushU64 (UInt64.ofNat (fromLeBytes (u64LeBytes value))))) = _
    rw [ensure_pos hlength, ok_bind, hvalue, UInt64.ofNat_toNat]
    rfl
  | pushBool value => cases value <;> rfl
  | storeLocal slot | loadLocal slot =>
    have hslot : slot.toNat < pulseVmMaxLocalSlotsV1 := h
    simp only [PulseInstructionV1.kind, PulseInstructionV1.operand, decodeOperand, head?_cons,
      okOr_some, ok_bind, validateBytecodeLocal]
    rw [ensure_pos hslot]
    rfl
  | _ => rfl

/-- What is read from an operand has the operand. -/
theorem decodeOperand_eq_ok {kind : PulseOpcodeKindV1} {operand : List UInt8}
    (h : decodeOperand kind operand = .ok instruction)
    (hlength : operand.length = (opcodeSpecForKindV1 kind).operandBytes) :
    instruction.kind = kind ∧ instruction.operand = operand ∧ instruction.SlotInRange := by
  cases kind with
  | pushU64 =>
    simp only [decodeOperand, bind_eq_ok, ensure_eq_ok, exists_const, pure_eq_ok,
      Except.ok.injEq] at h
    obtain ⟨height, rfl⟩ := h
    have hlt : fromLeBytes operand < 2 ^ 64 := by
      have hbound := fromLeBytes_lt operand
      rw [height] at hbound
      omega
    refine ⟨rfl, ?_, trivial⟩
    rw [PulseInstructionV1.operand, u64LeBytes, UInt64.toNat_ofNat', Nat.mod_eq_of_lt hlt, ← height]
    exact leBytes_fromLeBytes operand
  | pushBool =>
    obtain ⟨raw, rfl⟩ := length_eq_one_iff.mp hlength
    simp only [decodeOperand, head?_cons, okOr_some, ok_bind, bind_eq_ok, ensure_eq_ok,
      exists_const, pure_eq_ok, Except.ok.injEq] at h
    obtain ⟨rfl | rfl, rfl⟩ := h
    · exact ⟨rfl, rfl, trivial⟩
    · exact ⟨rfl, rfl, trivial⟩
  | storeLocal | loadLocal =>
    obtain ⟨slot, rfl⟩ := length_eq_one_iff.mp hlength
    simp only [decodeOperand, head?_cons, okOr_some, ok_bind, bind_eq_ok,
      validateBytecodeLocal, ensure_eq_ok, exists_const, pure_eq_ok, Except.ok.injEq] at h
    obtain ⟨hslot, rfl⟩ := h
    exact ⟨rfl, rfl, hslot⟩
  | _ =>
    obtain rfl := length_eq_zero_iff.mp hlength
    cases h
    exact ⟨rfl, rfl, trivial⟩

/-- The decoder reads an instruction exactly from its bytes. -/
theorem decodeInstruction_eq_ok :
    decodeInstruction bytes = .ok (instruction, rest) ↔
      bytes = instruction.code ++ rest ∧ instruction.SlotInRange := by
  constructor
  · intro h
    simp only [decodeInstruction, ok_iff, Prod.exists, readExact_eq_ok, Prod.mk.injEq] at h
    obtain ⟨opcode, _, ⟨rfl, hone⟩, spec, hspec, operand, _, ⟨rfl, hlength⟩, _, hoperand, rfl,
      rfl⟩ := h
    obtain ⟨byte, rfl⟩ := length_eq_one_iff.mp hone
    have htable : ∀ spec ∈ pulseOpcodeSpecsV1, opcodeSpecForKindV1 spec.kind = spec := by decide
    have hmem := htable spec (mem_of_find?_eq_some hspec)
    have hbyte : spec.opcode = byte := by
      have hfound := find?_some hspec
      exact beq_iff_eq.mp hfound
    rw [← hmem] at hlength
    obtain ⟨hkind, hsame, hslot⟩ := decodeOperand_eq_ok hoperand hlength
    refine ⟨?_, hslot⟩
    rw [PulseInstructionV1.code, PulseInstructionV1.spec, hkind, hmem, hbyte, hsame]
    rfl
  · rintro ⟨rfl, hslot⟩
    have hopcode : opcodeSpecForByteV1 instruction.spec.opcode = some instruction.spec := by
      cases instruction <;> rfl
    have hkind : instruction.spec.kind = instruction.kind :=
      (opcodeSpecForKindV1_kind instruction.kind).1
    have hfirst : readExact 1 (instruction.code ++ rest) =
        .ok ([instruction.spec.opcode], instruction.operand ++ rest) :=
      readExact_eq_ok.mpr ⟨rfl, rfl⟩
    have hsecond : readExact instruction.spec.operandBytes (instruction.operand ++ rest) =
        .ok (instruction.operand, rest) := readExact_eq_ok.mpr ⟨rfl, instruction.length_operand⟩
    simp only [decodeInstruction, hfirst, ok_bind, headD_cons, hopcode, okOr_some, hsecond,
      hkind, decodeOperand_operand hslot, pure_eq_ok]

/-! ## Whole programs -/

/-- What decodes is a list of codes. -/
theorem decodeLoop_eq_ok {count : ℕ} :
    decodeLoop count bytes = .ok (instructions, rest) ↔
      bytes = instructions.flatMap PulseInstructionV1.code ++ rest ∧ instructions.length = count ∧
        ∀ instruction ∈ instructions, instruction.SlotInRange := by
  induction count generalizing bytes rest instructions with
  | zero =>
    rw [decodeLoop, pure_eq_ok, Except.ok.injEq, Prod.mk.injEq, length_eq_zero_iff]
    constructor
    · rintro ⟨rfl, rfl⟩
      exact ⟨rfl, rfl, nofun⟩
    · rintro ⟨rfl, rfl, -⟩
      exact ⟨rfl, rfl⟩
  | succ count ih =>
    simp only [decodeLoop, ok_iff, Prod.exists, decodeInstruction_eq_ok, ih, Prod.mk.injEq]
    constructor
    · rintro ⟨instruction, _, ⟨rfl, hslot⟩, others, _, ⟨rfl, hlength, hslots⟩, rfl, rfl⟩
      refine ⟨by rw [flatMap_cons, append_assoc], by rw [length_cons, hlength], ?_⟩
      exact forall_mem_cons.mpr ⟨hslot, hslots⟩
    · rintro ⟨rfl, hlength, hslots⟩
      obtain ⟨instruction, others, rfl⟩ := exists_cons_of_length_eq_add_one hlength
      obtain ⟨hslot, hslots⟩ := forall_mem_cons.mp hslots
      rw [flatMap_cons, append_assoc]
      exact ⟨instruction, _, ⟨rfl, hslot⟩, others, rest, ⟨rfl, Nat.succ.inj hlength, hslots⟩, rfl,
        rfl⟩

/-- An analysed program only uses locals that exist. -/
theorem slotInRange_of_analyzeFrom {count index : ℕ} {loop final : PulseAnalysisLoop}
    (h : analyzeFrom count index instructions loop = .ok final) :
    ∀ instruction ∈ instructions, instruction.SlotInRange := by
  induction instructions generalizing index loop with
  | nil => nofun
  | cons op rest ih =>
    simp only [analyzeFrom, PulseAnalysisLoop.step, bind_eq_ok] at h
    obtain ⟨next, ⟨_, -, hop⟩, hrest⟩ := h
    refine forall_mem_cons.mpr ⟨?_, ih hrest⟩
    cases op with
    | storeLocal slot =>
      simp only [PulseAnalysisLoop.instruction, bind_eq_ok, Prod.exists, checkSlot,
        ensure_eq_ok, exists_const] at hop
      obtain ⟨_, _, -, hslot, -⟩ := hop
      exact hslot
    | loadLocal slot =>
      simp only [PulseAnalysisLoop.instruction, bind_eq_ok, checkSlot, ensure_eq_ok,
        exists_const] at hop
      exact hop.1
    | _ => trivial

/-- The bytecode of some instructions. -/
def bytecodeOf (instructions : List PulseInstructionV1) : List UInt8 :=
  bytecodeHeader instructions.length ++ instructions.flatMap PulseInstructionV1.code

/-- The length of a bytecode. -/
theorem length_bytecodeOf_le (instructions : List PulseInstructionV1) :
    (bytecodeOf instructions).length ≤ 12 + 9 * instructions.length := by
  have hcodes : (instructions.flatMap PulseInstructionV1.code).length ≤
      9 * instructions.length := by
    induction instructions with
    | nil => exact le_rfl
    | cons instruction rest ih =>
      have hcode := instruction.length_code_le
      rw [flatMap_cons, length_append, length_cons]
      omega
  simp only [bytecodeOf, bytecodeHeader, length_append, length_leBytes, pulseBytecodeMagicV1,
    length_cons, length_nil]
  omega

/-- The size limit of a bytecode is beyond what the largest number of instructions can reach. -/
theorem encodeBytecodeV1_eq_ok :
    encodeBytecodeV1 instructions = .ok bytecode ↔
      instructions.length ≤ pulseVmMaxInstructionsV1 ∧ bytecode = bytecodeOf instructions := by
  have hcodes : instructions.mapM encodeInstruction =
      .ok (instructions.map PulseInstructionV1.code) := by
    rw [show encodeInstruction = fun instruction => pure instruction.code from
      funext encodeInstruction_eq, mapM_pure]
    rfl
  have hlength := length_bytecodeOf_le instructions
  simp only [encodeBytecodeV1, hcodes, bind_eq_ok, ensure_eq_ok, exists_const, Except.ok.injEq,
    exists_eq_left', pure_eq_ok, ← flatMap_def]
  rw [← bytecodeOf]
  constructor
  · rintro ⟨hcount, -, rfl⟩
    exact ⟨hcount, rfl⟩
  · rintro ⟨hcount, rfl⟩
    have hlimit : pulseVmMaxBytecodeBytesV1 = 65536 := rfl
    have hmax : pulseVmMaxInstructionsV1 = 1024 := rfl
    exact ⟨hcount, by omega, rfl⟩

/-- The decoder accepts exactly the bytecodes of analysed programs. -/
theorem decodeAndValidateBytecodeV1_eq_ok {program : ValidatedPulseProgramV1} :
    decodeAndValidateBytecodeV1 bytecode = .ok program ↔
      bytecode = bytecodeOf program.instructions ∧
        analyzeInstructions program.instructions = .ok program.analysis := by
  constructor
  · intro h
    simp only [decodeAndValidateBytecodeV1, bind_eq_ok, Prod.exists, ensure_eq_ok, exists_const,
      readExact_eq_ok, decodeLoop_eq_ok, pure_eq_ok, Except.ok.injEq] at h
    obtain ⟨-, magic, _, ⟨rfl, -⟩, rfl, version, _, ⟨rfl, hversion⟩, hone, compiler, _,
      ⟨rfl, hcompiler⟩,
      hone', count, _, ⟨rfl, hcount⟩, -, instructions, _, ⟨rfl, hlength, -⟩, rfl, analysis,
      hanalysis, rfl⟩ := h
    refine ⟨?_, hanalysis⟩
    have hversion' := leBytes_fromLeBytes version
    have hcompiler' := leBytes_fromLeBytes compiler
    have hcount' := leBytes_fromLeBytes count
    rw [hversion, hone] at hversion'
    rw [hcompiler, hone'] at hcompiler'
    rw [hcount, ← hlength] at hcount'
    simp only [bytecodeOf, bytecodeHeader, hversion', hcompiler', hcount', append_assoc,
      append_nil]
  · rintro ⟨rfl, hanalysis⟩
    obtain ⟨hcount, loop, hloop, -⟩ := analyzeInstructions_eq_ok hanalysis
    have hlength := length_bytecodeOf_le program.instructions
    have hlimit : pulseVmMaxBytecodeBytesV1 = 65536 := rfl
    have hmax : pulseVmMaxInstructionsV1 = 1024 := rfl
    have hnumber : fromLeBytes (leBytes 4 program.instructions.length) =
        program.instructions.length := fromLeBytes_leBytes (by omega)
    simp only [decodeAndValidateBytecodeV1, bind_eq_ok, Prod.exists, ensure_eq_ok, exists_const,
      readExact_eq_ok, decodeLoop_eq_ok, pure_eq_ok, Except.ok.injEq]
    have hbytes : bytecodeOf program.instructions = pulseBytecodeMagicV1 ++
        (leBytes 2 pulseBytecodeVersionV1 ++ (leBytes 2 pulsescriptCompilerVersionV1 ++
          (leBytes 4 program.instructions.length ++
            (program.instructions.flatMap PulseInstructionV1.code ++ [])))) := by
      simp only [bytecodeOf, bytecodeHeader, append_assoc, append_nil]
    exact ⟨by omega, _, _, ⟨hbytes, rfl⟩, rfl, _, _, ⟨rfl, rfl⟩, rfl, _, _, ⟨rfl, rfl⟩, rfl, _, _,
      ⟨rfl, length_leBytes 4 _⟩, by omega, program.instructions, [],
      ⟨rfl, hnumber.symm, slotInRange_of_analyzeFrom hloop⟩, rfl, program.analysis, hanalysis, rfl⟩

section

variable [Crypto]

/-- Bytecode is canonical: decoding and encoding are inverse to each other, a program that has been
analysed compiles, and two bytecodes with one fingerprint are the same. -/
theorem pulseBytecode_canonical (hinjective : Function.Injective Crypto.sha256) :
    (∀ bytecode program, decodeAndValidateBytecodeV1 bytecode = .ok program →
      encodeBytecodeV1 program.instructions = .ok bytecode) ∧
    (∀ instructions analysis bytecode, analyzeInstructions instructions = .ok analysis →
      encodeBytecodeV1 instructions = .ok bytecode →
        decodeAndValidateBytecodeV1 bytecode = .ok ⟨instructions, analysis⟩) ∧
    (∀ source instructions analysis, parsePulsescript source = .ok instructions →
      analyzeInstructions instructions = .ok analysis →
        ∃ compiled, compilePulsescriptV1 source = .ok compiled ∧ compiled.analysis = analysis) ∧
    ∀ bytecode bytecode' fingerprint, pulseBytecodeFingerprintV1 bytecode = .ok fingerprint →
      pulseBytecodeFingerprintV1 bytecode' = .ok fingerprint →
        bytecode = bytecode' ∧ ∃ program, decodeAndValidateBytecodeV1 bytecode = .ok program ∧
          decodeAndValidateBytecodeV1 bytecode' = .ok program := by
  refine ⟨fun bytecode program h => ?_, fun instructions analysis bytecode hanalysis h => ?_,
    fun source instructions analysis hparse hanalysis => ?_,
    fun bytecode bytecode' fingerprint h h' => ?_⟩
  · obtain ⟨rfl, hanalysis⟩ := decodeAndValidateBytecodeV1_eq_ok.mp h
    exact encodeBytecodeV1_eq_ok.mpr ⟨(analyzeInstructions_eq_ok hanalysis).1, rfl⟩
  · obtain ⟨-, rfl⟩ := encodeBytecodeV1_eq_ok.mp h
    exact decodeAndValidateBytecodeV1_eq_ok.mpr ⟨rfl, hanalysis⟩
  · have hencode : encodeBytecodeV1 instructions = .ok (bytecodeOf instructions) :=
      encodeBytecodeV1_eq_ok.mpr ⟨(analyzeInstructions_eq_ok hanalysis).1, rfl⟩
    have hdecode : decodeAndValidateBytecodeV1 (bytecodeOf instructions) =
        .ok ⟨instructions, analysis⟩ := decodeAndValidateBytecodeV1_eq_ok.mpr ⟨rfl, hanalysis⟩
    simp only [compilePulsescriptV1, hparse, hanalysis, hencode, pulseBytecodeFingerprintV1,
      hdecode, ok_bind, pure_eq_ok]
    exact ⟨_, rfl, rfl⟩
  · simp only [pulseBytecodeFingerprintV1, ok_iff] at h h'
    obtain ⟨program, hprogram, rfl⟩ := h
    obtain ⟨program', -, hdigest⟩ := h'
    have hbytes := append_cancel_left (hinjective hdigest)
    obtain rfl : bytecode' = bytecode := by
      rw [encodeLenPrefixedBytes, encodeLenPrefixedBytes] at hbytes
      exact (append_inj hbytes (by rw [lenPrefix, lenPrefix, length_leBytes,
        length_leBytes])).2
    exact ⟨rfl, program, hprogram, hprogram⟩

end

/-- The bytes themselves in place of their digest. -/
abbrev verbatimCrypto : Crypto where
  sha256 bytes := bytes
  ed25519Verify _ _ _ := true
  kHeavyHashDigest _ _ := []

/-- A program with both kinds of line end, a comment and a blank line. -/
def goldenSource : String :=
  "pulsescript-v1\r\npush_u64 2\npush_u64 3\nadd_u64 # five\npush_u64 5\neq_u64\n\nhalt\n"

/-- A program and its bytecode. -/
theorem pulseBytecode_canonical_golden : letI := verbatimCrypto
    ∃ compiled, compilePulsescriptV1 goldenSource = .ok compiled ∧
      compiled.bytecode = goldenBytecode ∧
      ∃ program, decodeAndValidateBytecodeV1 goldenBytecode = .ok program ∧
        encodeBytecodeV1 program.instructions = .ok goldenBytecode := by
  let := verbatimCrypto
  have hcompiled : (compilePulsescriptV1 goldenSource).toOption.map
      CompiledPulseScriptV1.bytecode = some goldenBytecode := by decide +kernel
  have hdecoded : (decodeAndValidateBytecodeV1 goldenBytecode).toOption.isSome = true := by
    decide +kernel
  obtain ⟨compiled, hcompiled, hbytecode⟩ := Option.map_eq_some_iff.mp hcompiled
  obtain ⟨program, hprogram⟩ := Option.isSome_iff_exists.mp hdecoded
  have hprogram := eq_ok_of_toOption hprogram
  exact ⟨compiled, eq_ok_of_toOption hcompiled, hbytecode, program, hprogram,
    (pulseBytecode_canonical fun _ _ h => h).1 _ _ hprogram⟩

end PulseDag
