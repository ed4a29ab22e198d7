import Nas.Compile

/-!
# Compiling a flow again

`AuCompileFlow` for a flow that has compiled outputs already (`recompile` on), which is what
`ProcAuSetElementParameters` asks for. It makes the same walk as the first time and only stores new
constants in the inputs it gets to. The elements it comes by were marked as compiled then.
-/

namespace Nas
variable {K : Type}

/-- The elements the loop over the tracks of a bundle calls for. `numTracks` is the number of tracks
gathered for `nextInput`. -/
def bundleCalls : List AuInputTrack → (nextInput numTracks : Nat) → Exec (List Nat)
  | [], nextInput, _ => .ok [nextInput]
  | t :: tracks, nextInput, numTracks =>
    if numTracks ≠ 0 ∧ t.elementNum ≠ nextInput then do
      let calls ← bundleCalls tracks t.elementNum 1
      .ok (nextInput :: calls)
    else if numTracks < auMaxTracks then bundleCalls tracks t.elementNum (numTracks + 1)
    else .error .fault

/-- Calls for some elements, up to the first that fails, with the constants they stored. -/
def recompileEach (call : Nat → Exec (AuStatus × List (K × K))) : List Nat → Exec (AuStatus × List (K × K))
  | [] => .ok (.auSuccess, [])
  | input :: inputs => do
    let (status, constants) ← call input
    if status ≠ .auSuccess then .ok (status, constants)
    else do
      let (status, constants') ← recompileEach call inputs
      .ok (status, constants ++ constants')

/-- `compileInputs`, with the constants it stores one after the other. -/
def recompileInputs (arith : Arith K) (elements : List (FlowElement K)) :
    (fuel : Nat) → (multiplyConstant addConstant : K) → (inputNum : Nat) → Exec (AuStatus × List (K × K))
  | 0, _, _, _ => .error .fuel
  | fuel + 1, multiplyConstant, addConstant, inputNum => do
    let e ← Exec.deref elements[inputNum]?
    match e.raw with
    | .importBucket _ | .importDevice _ | .importClient _ | .importWaveForm _ =>
      .ok (.auSuccess, [(multiplyConstant, addConstant)])
    | .bundle inputs => do
      let calls ← bundleCalls inputs (2 ^ 32 - 1) 0
      recompileEach (recompileInputs arith elements fuel multiplyConstant addConstant) calls
    | .multiplyConstant input constant =>
      recompileInputs arith elements fuel (arith.multiply multiplyConstant constant) addConstant input
    | .addConstant input constant =>
      recompileInputs arith elements fuel multiplyConstant (arith.add addConstant constant) input
    | .sum inputs => recompileEach (recompileInputs arith elements fuel multiplyConstant addConstant) inputs
    | _ => .ok (.auBadElement, [])

/-- The inputs of an output with new constants for the first of them. -/
def storeConstants : List (CompiledInput K) → List (K × K) → Exec (List (CompiledInput K))
  | inputs, [] => .ok inputs
  | [], _ :: _ => .error .fault
  | input :: inputs, c :: constants => do
    let inputs ← storeConstants inputs constants
    .ok ({ input with multiplyConstant := c.1, addConstant := c.2 } :: inputs)

/-- The loop of `AuCompileFlow`, for the number of export elements that are left. -/
def recompileOutputs (arith : Arith K) (elements : List (FlowElement K)) (fuel : Nat) :
    Nat → List (CompiledOutput K) → Exec (AuStatus × List (CompiledOutput K))
  | 0, outputs => .ok (.auSuccess, outputs)
  | _ + 1, [] => .error .fault
  | n + 1, output :: outputs =>
    if output.firstInput > elements.length then .ok (.auBadElement, output :: outputs)
    else do
      let (status, constants) ← recompileInputs arith elements fuel arith.one arith.zero output.firstInput
      let inputs ← storeConstants output.inputs constants
      let output := { output with inputs }
      if status ≠ .auSuccess then .ok (status, output :: outputs)
      else do
        let (status, outputs) ← recompileOutputs arith elements fuel n outputs
        .ok (status, output :: outputs)

def recompileFlow (arith : Arith K) (fuel : Nat) (f : Flow K) : Exec (AuStatus × Flow K) := do
  let (status, outputs) ← recompileOutputs arith f.els fuel (f.els.countP (·.raw.isExport)) f.compiled.outputs
  .ok (status, { f with compiled := { outputs } })

end Nas
