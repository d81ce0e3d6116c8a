import PulseDag.Core.Bytes
import PulseDag.Ledger.Denomination

/-!
# PulseScript and its machine

`pulsescript_vm_v1.rs`: a language without branches on a stack of integers and booleans. A program
is analysed before it is run: the analysis keeps a stack of types, one type for each local that
has been written, and the cost. The arrays of locals have a fixed length; an index outside of them
is a panic of the source and the error `indexOutOfBounds` here.
-/

namespace PulseDag

/-! ## Opcodes -/

def pulsescriptCompilerVersionV1 : ℕ := 1

def pulseBytecodeVersionV1 : ℕ := 1

def pulsescriptMaxSourceBytesV1 : ℕ := 16 * 1024

def pulsescriptMaxRawSourceBytesV1 : ℕ := pulsescriptMaxSourceBytesV1 * 2

def pulseVmMaxBytecodeBytesV1 : ℕ := 64 * 1024

def pulseVmMaxInstructionsV1 : ℕ := 1024

def pulseVmMaxStackValuesV1 : ℕ := 256

def pulseVmMaxLocalSlotsV1 : ℕ := 64

/-- `PulseOpcodeKindV1`. -/
inductive PulseOpcodeKindV1
  | pushU64 | pushBool | addU64 | subU64 | mulU64 | eqU64 | andBool | orBool | notBool
  | dup | drop | storeLocal | loadLocal | halt
  deriving DecidableEq, Repr

/-- `PulseOpcodeSpecV1`. -/
structure PulseOpcodeSpecV1 where
  kind : PulseOpcodeKindV1
  opcode : UInt8
  name : String
  operandBytes : ℕ
  computeCost : UInt64
  deriving DecidableEq, Repr

/-- `PULSE_OPCODE_SPECS_V1`. -/
def pulseOpcodeSpecsV1 : List PulseOpcodeSpecV1 :=
  [⟨.pushU64, 0x01, "push_u64", 8, 1⟩, ⟨.pushBool, 0x02, "push_bool", 1, 1⟩,
    ⟨.addU64, 0x10, "add_u64", 0, 2⟩, ⟨.subU64, 0x11, "sub_u64", 0, 2⟩,
    ⟨.mulU64, 0x12, "mul_u64", 0, 2⟩, ⟨.eqU64, 0x13, "eq_u64", 0, 1⟩,
    ⟨.andBool, 0x20, "and_bool", 0, 1⟩, ⟨.orBool, 0x21, "or_bool", 0, 1⟩,
    ⟨.notBool, 0x22, "not_bool", 0, 1⟩, ⟨.dup, 0x30, "dup", 0, 1⟩, ⟨.drop, 0x31, "drop", 0, 1⟩,
    ⟨.storeLocal, 0x40, "store_local", 1, 2⟩, ⟨.loadLocal, 0x41, "load_local", 1, 2⟩,
    ⟨.halt, 0xff, "halt", 0, 0⟩]

/-- `PulseInstructionV1`. -/
inductive PulseInstructionV1
  | pushU64 (value : UInt64)
  | pushBool (value : Bool)
  | addU64 | subU64 | mulU64 | eqU64 | andBool | orBool | notBool | dup | drop
  | storeLocal (slot : UInt8)
  | loadLocal (slot : UInt8)
  | halt
  deriving DecidableEq, Repr

/-- `instruction_opcode_kind_v1`. -/
def PulseInstructionV1.kind : PulseInstructionV1 → PulseOpcodeKindV1
  | pushU64 _ => .pushU64
  | pushBool _ => .pushBool
  | addU64 => .addU64
  | subU64 => .subU64
  | mulU64 => .mulU64
  | eqU64 => .eqU64
  | andBool => .andBool
  | orBool => .orBool
  | notBool => .notBool
  | dup => .dup
  | drop => .drop
  | storeLocal _ => .storeLocal
  | loadLocal _ => .loadLocal
  | halt => .halt

/-- `opcode_spec_for_name_v1`. -/
def opcodeSpecForNameV1 (name : List Char) : Option PulseOpcodeSpecV1 :=
  pulseOpcodeSpecsV1.find? fun spec => spec.name.toList == name

/-- `opcode_spec_for_byte_v1`. -/
def opcodeSpecForByteV1 (opcode : UInt8) : Option PulseOpcodeSpecV1 :=
  pulseOpcodeSpecsV1.find? fun spec => spec.opcode == opcode

/-- `opcode_spec_for_kind_v1`. Every kind is in the table (`opcodeSpecForKindV1_kind`). -/
def opcodeSpecForKindV1 (kind : PulseOpcodeKindV1) : PulseOpcodeSpecV1 :=
  (pulseOpcodeSpecsV1.find? fun spec => spec.kind == kind).getD ⟨.halt, 0xff, "halt", 0, 0⟩

/-- Every kind has its entry in the table. -/
theorem opcodeSpecForKindV1_kind (kind : PulseOpcodeKindV1) :
    (opcodeSpecForKindV1 kind).kind = kind ∧ opcodeSpecForKindV1 kind ∈ pulseOpcodeSpecsV1 := by
  cases kind <;> decide

/-- `opcode_spec_for_instruction_v1`. -/
def PulseInstructionV1.spec (instruction : PulseInstructionV1) : PulseOpcodeSpecV1 :=
  opcodeSpecForKindV1 instruction.kind

/-- `instruction_compute_cost`. -/
def PulseInstructionV1.computeCost (instruction : PulseInstructionV1) : UInt64 :=
  instruction.spec.computeCost

/-! ## Values and errors -/

/-- `PulseValueTypeV1`. -/
inductive PulseValueTypeV1
  | u64 | bool
  deriving DecidableEq, Repr

/-- `PulseValueV1`. -/
inductive PulseValueV1
  | u64 (value : UInt64)
  | bool (value : Bool)
  deriving DecidableEq, Repr

/-- `value_type`. -/
def PulseValueV1.valueType : PulseValueV1 → PulseValueTypeV1
  | u64 _ => .u64
  | bool _ => .bool

/-- The errors of `ContractV3Error` that a resource budget may have. -/
inductive ContractV3Error
  | unsupportedResourceBudgetVersion (version : UInt16)
  | resourceLimitExceeded (field : String) (actual max : UInt64)
  deriving DecidableEq, Repr

/-- `PulseVmV1Error`, and `indexOutOfBounds` for the panic of an array index. -/
inductive PulseVmV1Error
  | sourceTooLarge (actual max : ℕ)
  | unsupportedCompilerHeader
  | sourceSyntax (line : ℕ)
  | invalidLiteral (line : ℕ)
  | tooManyInstructions (max : ℕ)
  | localIndexOutOfRange (index max : ℕ)
  | typeStackUnderflow (instruction : ℕ)
  | typeMismatch (instruction : ℕ) (expected actual : PulseValueTypeV1)
  | uninitializedLocal (index : UInt8)
  | stackLimitExceeded (max : ℕ)
  | missingOrMisplacedHalt
  | invalidResultArity (actual : ℕ)
  | bytecodeTooLarge (actual max : ℕ)
  | invalidBytecodeHeader
  | unsupportedBytecodeVersion (version : ℕ)
  | unsupportedCompilerVersion (version : ℕ)
  | invalidInstructionCount (actual max : ℕ)
  | truncatedBytecode
  | unknownOpcode (opcode : UInt8)
  | invalidBooleanEncoding (operand : UInt8)
  | trailingBytecode
  | arithmeticOverflow (instruction : ℕ)
  | computeBudgetExceeded (actual max : UInt64)
  | computeAccountingOverflow
  | runtimeTypeInvariant (instruction : ℕ)
  | contractV3 (error : ContractV3Error)
  | opcodeTableInvariant
  | indexOutOfBounds
  deriving DecidableEq, Repr

/-- An index into an array of locals. -/
def checkSlot (slot : UInt8) : Except PulseVmV1Error Unit :=
  ensure (slot.toNat < pulseVmMaxLocalSlotsV1) .indexOutOfBounds

/-! ## Analysis -/

/-- `PulseStaticAnalysisV1`. -/
structure PulseStaticAnalysisV1 where
  instructionCount : ℕ
  computeUnits : UInt64
  maxStackValues : ℕ
  localSlotsUsed : ℕ
  resultType : PulseValueTypeV1
  maxCallDepth : ℕ := 0
  stateAccesses : ℕ := 0
  deriving DecidableEq, Repr

/-- What the loop of `analyze_instructions` keeps; the top of the stack comes first. -/
structure PulseAnalysisLoop where
  stack : List PulseValueTypeV1 := []
  locals : UInt8 → Option PulseValueTypeV1 := fun _ => none
  computeUnits : UInt64 := 0
  maxStackValues : ℕ := 0
  localSlotsUsed : ℕ := 0
  halted : Bool := false

/-- `push_type`. -/
def PulseAnalysisLoop.pushType (loop : PulseAnalysisLoop) (valueType : PulseValueTypeV1) :
    Except PulseVmV1Error PulseAnalysisLoop := do
  ensure (loop.stack.length < pulseVmMaxStackValuesV1) (.stackLimitExceeded pulseVmMaxStackValuesV1)
  pure { loop with
    stack := valueType :: loop.stack
    maxStackValues := max loop.maxStackValues (loop.stack.length + 1) }

/-- `stack.pop()`, with the error for an empty stack. -/
def PulseAnalysisLoop.popType (loop : PulseAnalysisLoop) (instruction : ℕ) :
    Except PulseVmV1Error (PulseValueTypeV1 × PulseAnalysisLoop) :=
  match loop.stack with
  | [] => .error (.typeStackUnderflow instruction)
  | valueType :: stack => .ok (valueType, { loop with stack := stack })

/-- `pop_expected_type`. -/
def PulseAnalysisLoop.popExpectedType (loop : PulseAnalysisLoop) (expected : PulseValueTypeV1)
    (instruction : ℕ) : Except PulseVmV1Error PulseAnalysisLoop := do
  let (actual, loop) ← loop.popType instruction
  ensure (actual = expected) (.typeMismatch instruction expected actual)
  pure loop

/-- Two operands of one type and a result, as most instructions have. -/
def PulseAnalysisLoop.binary (loop : PulseAnalysisLoop) (operand result : PulseValueTypeV1)
    (instruction : ℕ) : Except PulseVmV1Error PulseAnalysisLoop := do
  let loop ← loop.popExpectedType operand instruction
  let loop ← loop.popExpectedType operand instruction
  loop.pushType result

/-- The locals after a store: the first store gives a slot its type. -/
def PulseAnalysisLoop.storeType (loop : PulseAnalysisLoop) (slot : UInt8)
    (valueType : PulseValueTypeV1) (instruction : ℕ) :
    Except PulseVmV1Error (UInt8 → Option PulseValueTypeV1) :=
  match loop.locals slot with
  | some expected => do
    ensure (expected = valueType) (.typeMismatch instruction expected valueType)
    pure loop.locals
  | none => pure (Function.update loop.locals slot (some valueType))

/-- The match in the loop of `analyze_instructions`, for the instruction at an index of `count`. -/
def PulseAnalysisLoop.instruction (count index : ℕ) (loop : PulseAnalysisLoop) :
    PulseInstructionV1 → Except PulseVmV1Error PulseAnalysisLoop
  | .pushU64 _ => loop.pushType .u64
  | .pushBool _ => loop.pushType .bool
  | .addU64 | .subU64 | .mulU64 => loop.binary .u64 .u64 index
  | .eqU64 => loop.binary .u64 .bool index
  | .andBool | .orBool => loop.binary .bool .bool index
  | .notBool => do
    let loop ← loop.popExpectedType .bool index
    loop.pushType .bool
  | .dup => do
    let valueType ← okOr loop.stack.head? (.typeStackUnderflow index)
    loop.pushType valueType
  | .drop => do
    let (_, loop) ← loop.popType index
    pure loop
  | .storeLocal slot => do
    let (valueType, loop) ← loop.popType index
    checkSlot slot
    let locals ← loop.storeType slot valueType index
    pure { loop with
      locals := locals, localSlotsUsed := max loop.localSlotsUsed (slot.toNat + 1) }
  | .loadLocal slot => do
    checkSlot slot
    let valueType ← okOr (loop.locals slot) (.uninitializedLocal slot)
    let loop ← loop.pushType valueType
    pure { loop with localSlotsUsed := max loop.localSlotsUsed (slot.toNat + 1) }
  | .halt => do
    ensure (index + 1 = count ∧ loop.halted = false) .missingOrMisplacedHalt
    ensure (loop.stack.length = 1) (.invalidResultArity loop.stack.length)
    pure { loop with halted := true }

/-- One round of the loop of `analyze_instructions`. -/
def PulseAnalysisLoop.step (count index : ℕ) (loop : PulseAnalysisLoop)
    (instruction : PulseInstructionV1) : Except PulseVmV1Error PulseAnalysisLoop := do
  let computeUnits ←
    okOr (checkedAdd loop.computeUnits instruction.computeCost) .computeAccountingOverflow
  { loop with computeUnits := computeUnits }.instruction count index instruction

/-- The loop of `analyze_instructions` from an index on. -/
def analyzeFrom (count : ℕ) : ℕ → List PulseInstructionV1 → PulseAnalysisLoop →
    Except PulseVmV1Error PulseAnalysisLoop
  | _, [], loop => pure loop
  | index, instruction :: rest, loop => do
    let loop ← loop.step count index instruction
    analyzeFrom count (index + 1) rest loop

/-- `analyze_instructions`. -/
def analyzeInstructions (instructions : List PulseInstructionV1) :
    Except PulseVmV1Error PulseStaticAnalysisV1 := do
  ensure (instructions.length ≤ pulseVmMaxInstructionsV1)
    (.tooManyInstructions pulseVmMaxInstructionsV1)
  let loop ← analyzeFrom instructions.length 0 instructions {}
  ensure (loop.halted = true) .missingOrMisplacedHalt
  let resultType ← okOr loop.stack.getLast? .indexOutOfBounds
  pure
    { instructionCount := instructions.length
      computeUnits := loop.computeUnits
      maxStackValues := loop.maxStackValues
      localSlotsUsed := loop.localSlotsUsed
      resultType := resultType }

/-! ## Bytecode -/

/-- `u16::from_le_bytes`, `u32::from_le_bytes` and `u64::from_le_bytes`. -/
def fromLeBytes : List UInt8 → ℕ
  | [] => 0
  | byte :: rest => byte.toNat + 256 * fromLeBytes rest

/-- `PULSE_BYTECODE_MAGIC_V1`. -/
def pulseBytecodeMagicV1 : List UInt8 := [0x50, 0x44, 0x50, 0x53]

/-- The operand that `encode_bytecode_v1` writes for an instruction. -/
def PulseInstructionV1.operand : PulseInstructionV1 → List UInt8
  | pushU64 value => u64LeBytes value
  | pushBool value => [if value then 1 else 0]
  | storeLocal slot | loadLocal slot => [slot]
  | _ => []

/-- The loop body of `encode_bytecode_v1`. -/
def encodeInstruction (instruction : PulseInstructionV1) : Except PulseVmV1Error (List UInt8) := do
  ensure (instruction.operand.length = instruction.spec.operandBytes) .opcodeTableInvariant
  pure (instruction.spec.opcode :: instruction.operand)

/-- The header of a bytecode: the magic, the versions and the number of instructions. -/
def bytecodeHeader (count : ℕ) : List UInt8 :=
  pulseBytecodeMagicV1 ++ leBytes 2 pulseBytecodeVersionV1 ++
    leBytes 2 pulsescriptCompilerVersionV1 ++ leBytes 4 count

/-- `encode_bytecode_v1`. -/
def encodeBytecodeV1 (instructions : List PulseInstructionV1) :
    Except PulseVmV1Error (List UInt8) := do
  ensure (instructions.length ≤ pulseVmMaxInstructionsV1)
    (.tooManyInstructions pulseVmMaxInstructionsV1)
  let codes ← instructions.mapM encodeInstruction
  let bytes := bytecodeHeader instructions.length ++ codes.flatten
  ensure (bytes.length ≤ pulseVmMaxBytecodeBytesV1)
    (.bytecodeTooLarge bytes.length pulseVmMaxBytecodeBytesV1)
  pure bytes

/-- `read_exact`: the bytes from the cursor on are the bytes that have not been read. -/
def readExact (n : ℕ) (bytes : List UInt8) : Except PulseVmV1Error (List UInt8 × List UInt8) :=
  if n ≤ bytes.length then .ok (bytes.take n, bytes.drop n) else .error .truncatedBytecode

/-- `validate_bytecode_local`. -/
def validateBytecodeLocal (slot : UInt8) : Except PulseVmV1Error Unit :=
  ensure (slot.toNat < pulseVmMaxLocalSlotsV1)
    (.localIndexOutOfRange slot.toNat (pulseVmMaxLocalSlotsV1 - 1))

/-- The match of `decode_and_validate_bytecode_v1` on the kind of an opcode. -/
def decodeOperand (kind : PulseOpcodeKindV1) (operand : List UInt8) :
    Except PulseVmV1Error PulseInstructionV1 :=
  match kind with
  | .pushU64 => do
    ensure (operand.length = 8) .opcodeTableInvariant
    pure (.pushU64 (UInt64.ofNat (fromLeBytes operand)))
  | .pushBool => do
    let raw ← okOr operand.head? .opcodeTableInvariant
    ensure (raw = 0 ∨ raw = 1) (.invalidBooleanEncoding raw)
    pure (.pushBool (raw == 1))
  | .addU64 => pure .addU64
  | .subU64 => pure .subU64
  | .mulU64 => pure .mulU64
  | .eqU64 => pure .eqU64
  | .andBool => pure .andBool
  | .orBool => pure .orBool
  | .notBool => pure .notBool
  | .dup => pure .dup
  | .drop => pure .drop
  | .storeLocal => do
    let slot ← okOr operand.head? .opcodeTableInvariant
    validateBytecodeLocal slot
    pure (.storeLocal slot)
  | .loadLocal => do
    let slot ← okOr operand.head? .opcodeTableInvariant
    validateBytecodeLocal slot
    pure (.loadLocal slot)
  | .halt => pure .halt

/-- The loop body of `decode_and_validate_bytecode_v1`. -/
def decodeInstruction (bytes : List UInt8) :
    Except PulseVmV1Error (PulseInstructionV1 × List UInt8) := do
  let (opcode, bytes) ← readExact 1 bytes
  let opcode := opcode.headD 0
  let spec ← okOr (opcodeSpecForByteV1 opcode) (.unknownOpcode opcode)
  let (operand, bytes) ← readExact spec.operandBytes bytes
  let instruction ← decodeOperand spec.kind operand
  pure (instruction, bytes)

/-- The loop of `decode_and_validate_bytecode_v1`. -/
def decodeLoop : ℕ → List UInt8 → Except PulseVmV1Error (List PulseInstructionV1 × List UInt8)
  | 0, bytes => pure ([], bytes)
  | count + 1, bytes => do
    let (instruction, bytes) ← decodeInstruction bytes
    let (instructions, bytes) ← decodeLoop count bytes
    pure (instruction :: instructions, bytes)

/-- `ValidatedPulseProgramV1`. -/
structure ValidatedPulseProgramV1 where
  instructions : List PulseInstructionV1
  analysis : PulseStaticAnalysisV1
  deriving DecidableEq, Repr

/-- `decode_and_validate_bytecode_v1`. -/
def decodeAndValidateBytecodeV1 (bytecode : List UInt8) :
    Except PulseVmV1Error ValidatedPulseProgramV1 := do
  ensure (bytecode.length ≤ pulseVmMaxBytecodeBytesV1)
    (.bytecodeTooLarge bytecode.length pulseVmMaxBytecodeBytesV1)
  let (magic, bytes) ← readExact 4 bytecode
  ensure (magic = pulseBytecodeMagicV1) .invalidBytecodeHeader
  let (version, bytes) ← readExact 2 bytes
  ensure (fromLeBytes version = pulseBytecodeVersionV1)
    (.unsupportedBytecodeVersion (fromLeBytes version))
  let (compiler, bytes) ← readExact 2 bytes
  ensure (fromLeBytes compiler = pulsescriptCompilerVersionV1)
    (.unsupportedCompilerVersion (fromLeBytes compiler))
  let (count, bytes) ← readExact 4 bytes
  ensure (fromLeBytes count ≤ pulseVmMaxInstructionsV1)
    (.invalidInstructionCount (fromLeBytes count) pulseVmMaxInstructionsV1)
  let (instructions, bytes) ← decodeLoop (fromLeBytes count) bytes
  ensure (bytes = []) .trailingBytecode
  let analysis ← analyzeInstructions instructions
  pure ⟨instructions, analysis⟩

/-- `validate_pulse_bytecode_v1`. -/
def validatePulseBytecodeV1 (bytecode : List UInt8) :
    Except PulseVmV1Error PulseStaticAnalysisV1 := do
  let program ← decodeAndValidateBytecodeV1 bytecode
  pure program.analysis

/-! ## Execution -/

/-- `ResourceBudgetV1`. -/
structure ResourceBudgetV1 where
  version : UInt16
  computeUnits : UInt64
  readBytes : UInt64
  writeBytes : UInt64
  proofBytes : UInt32
  eventBytes : UInt32
  deriving DecidableEq, Repr

/-- `ensure_resource_limit`. -/
def ensureResourceLimit (field : String) (actual max : UInt64) : Except ContractV3Error Unit :=
  ensure (actual ≤ max) (.resourceLimitExceeded field actual max)

/-- `ResourceBudgetV1::validate`. -/
def ResourceBudgetV1.validate (budget : ResourceBudgetV1) : Except ContractV3Error Unit := do
  ensure (budget.version = 1) (.unsupportedResourceBudgetVersion budget.version)
  ensureResourceLimit "compute_units" budget.computeUnits 10000000
  ensureResourceLimit "read_bytes" budget.readBytes (16 * 1024 * 1024)
  ensureResourceLimit "write_bytes" budget.writeBytes (4 * 1024 * 1024)
  ensureResourceLimit "proof_bytes" budget.proofBytes.toUInt64 (8 * 1024 * 1024)
  ensureResourceLimit "event_bytes" budget.eventBytes.toUInt64 (1024 * 1024)

/-- `PulseVmExecutionV1`, with the fields of its `PulseVmResourceUsageV1`. -/
structure PulseVmExecutionV1 where
  result : PulseValueV1
  executedInstructions : ℕ
  computeUnits : UInt64
  peakStackValues : ℕ
  localSlotsUsed : ℕ
  callDepthPeak : ℕ := 0
  stateAccesses : ℕ := 0
  deriving DecidableEq, Repr

/-- What the loop of `execute_pulse_bytecode_v1` keeps; the top of the stack comes first. -/
structure PulseRun where
  stack : List PulseValueV1 := []
  locals : UInt8 → Option PulseValueV1 := fun _ => none
  computeUnits : UInt64 := 0
  executedInstructions : ℕ := 0

/-- `runtime_pop_u64`. -/
def PulseRun.popU64 (run : PulseRun) (instruction : ℕ) :
    Except PulseVmV1Error (UInt64 × PulseRun) :=
  match run.stack with
  | .u64 value :: stack => .ok (value, { run with stack := stack })
  | _ => .error (.runtimeTypeInvariant instruction)

/-- `runtime_pop_bool`. -/
def PulseRun.popBool (run : PulseRun) (instruction : ℕ) :
    Except PulseVmV1Error (Bool × PulseRun) :=
  match run.stack with
  | .bool value :: stack => .ok (value, { run with stack := stack })
  | _ => .error (.runtimeTypeInvariant instruction)

/-- `stack.pop()`, with the error for an empty stack. -/
def PulseRun.pop (run : PulseRun) (instruction : ℕ) :
    Except PulseVmV1Error (PulseValueV1 × PulseRun) :=
  match run.stack with
  | value :: stack => .ok (value, { run with stack := stack })
  | [] => .error (.runtimeTypeInvariant instruction)

/-- `stack.push`. -/
def PulseRun.push (run : PulseRun) (value : PulseValueV1) : PulseRun :=
  { run with stack := value :: run.stack }

/-- Two integers and a result that may overflow. -/
def PulseRun.binaryU64 (run : PulseRun) (instruction : ℕ)
    (operation : UInt64 → UInt64 → Option PulseValueV1) : Except PulseVmV1Error PulseRun := do
  let (rhs, run) ← run.popU64 instruction
  let (lhs, run) ← run.popU64 instruction
  let value ← okOr (operation lhs rhs) (.arithmeticOverflow instruction)
  pure (run.push value)

/-- Two booleans and a result. -/
def PulseRun.binaryBool (run : PulseRun) (instruction : ℕ) (operation : Bool → Bool → Bool) :
    Except PulseVmV1Error PulseRun := do
  let (rhs, run) ← run.popBool instruction
  let (lhs, run) ← run.popBool instruction
  pure (run.push (.bool (operation lhs rhs)))

/-- The match in the loop of `execute_pulse_bytecode_v1`. -/
def PulseRun.instruction (run : PulseRun) (index : ℕ) :
    PulseInstructionV1 → Except PulseVmV1Error PulseRun
  | .pushU64 value => pure (run.push (.u64 value))
  | .pushBool value => pure (run.push (.bool value))
  | .addU64 => run.binaryU64 index fun lhs rhs => (checkedAdd lhs rhs).map .u64
  | .subU64 => run.binaryU64 index fun lhs rhs => (checkedSub lhs rhs).map .u64
  | .mulU64 => run.binaryU64 index fun lhs rhs => (checkedMul lhs rhs).map .u64
  | .eqU64 => run.binaryU64 index fun lhs rhs => some (.bool (lhs == rhs))
  | .andBool => run.binaryBool index (· && ·)
  | .orBool => run.binaryBool index (· || ·)
  | .notBool => do
    let (value, run) ← run.popBool index
    pure (run.push (.bool (!value)))
  | .dup => do
    let value ← okOr run.stack.head? (.runtimeTypeInvariant index)
    pure (run.push value)
  | .drop => do
    let (_, run) ← run.pop index
    pure run
  | .storeLocal slot => do
    let (value, run) ← run.pop index
    checkSlot slot
    pure { run with locals := Function.update run.locals slot (some value) }
  | .loadLocal slot => do
    checkSlot slot
    let value ← okOr (run.locals slot) (.runtimeTypeInvariant index)
    pure (run.push value)
  | .halt => pure run

/-- The cost of one more instruction. -/
def PulseRun.charge (run : PulseRun) (instruction : PulseInstructionV1) :
    Except PulseVmV1Error PulseRun := do
  let computeUnits ←
    okOr (checkedAdd run.computeUnits instruction.computeCost) .computeAccountingOverflow
  ensure (run.executedInstructions + 1 < 2 ^ 32) .computeAccountingOverflow
  pure { run with
    computeUnits := computeUnits, executedInstructions := run.executedInstructions + 1 }

/-- The loop of `execute_pulse_bytecode_v1` from an index on; it stops at `halt`. -/
def executeFrom : ℕ → List PulseInstructionV1 → PulseRun → Except PulseVmV1Error PulseRun
  | _, [], run => pure run
  | index, instruction :: rest, run => do
    let run ← run.charge instruction
    let run ← run.instruction index instruction
    if instruction = .halt then pure run else executeFrom (index + 1) rest run

/-- `execute_pulse_bytecode_v1`. -/
def executePulseBytecodeV1 (bytecode : List UInt8) (budget : ResourceBudgetV1) :
    Except PulseVmV1Error PulseVmExecutionV1 := do
  Except.mapError .contractV3 budget.validate
  let program ← decodeAndValidateBytecodeV1 bytecode
  ensure (program.analysis.computeUnits ≤ budget.computeUnits)
    (.computeBudgetExceeded program.analysis.computeUnits budget.computeUnits)
  let run ← executeFrom 0 program.instructions {}
  ensure (run.computeUnits = program.analysis.computeUnits) .computeAccountingOverflow
  ensure (run.computeUnits ≤ budget.computeUnits)
    (.computeBudgetExceeded run.computeUnits budget.computeUnits)
  let result ← okOr run.stack.getLast? (.runtimeTypeInvariant (run.executedInstructions - 1))
  pure
    { result := result
      executedInstructions := run.executedInstructions
      computeUnits := run.computeUnits
      peakStackValues := program.analysis.maxStackValues
      localSlotsUsed := program.analysis.localSlotsUsed }

end PulseDag
