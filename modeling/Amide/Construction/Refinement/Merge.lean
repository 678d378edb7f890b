import Amide.Construction.Refinement.Harness

/-!
# The global harness and the one of a session (`core/refinement/refinement.ts`)

`mergeHarnessStates` puts the entries of both into one harness.  A local entry whose id is taken
goes under its scope and its id.

The greater of two schema numbers, which are kept as they were read, is left to the host.
-/

namespace Amide

/-- The number of a key that is an array index, which has no digit 0 in front of others. -/
def arrayIndex (key : String) : Option ℕ :=
  let digits := key.toList
  let index := digits.foldl (fun index digit => 10 * index + (digit.toNat - 48)) 0
  if digits ≠ [] ∧ digits.all Char.isDigit ∧ (digits.head? = some '0' → digits.length = 1) ∧
    index < 2 ^ 32 - 1 then some index else none

/-- `Object.entries`: array indices come first, in their order. -/
def ownEntries (records : JsMap String HarnessEntry) : List (String × HarnessEntry) :=
  (records.entries.filter fun record => (arrayIndex record.1).isSome).mergeSort
      (fun first second => (arrayIndex first.1).getD 0 ≤ (arrayIndex second.1).getD 0) ++
    records.entries.filter fun record => !(arrayIndex record.1).isSome

/-- The entry with its scope normalized. -/
def scopedEntry (fallback : HarnessScope) (entry : HarnessEntry) : HarnessEntry :=
  { entry with
    scope := some (normalizeHarnessScope (entry.scope.map fun scope => .str scope.text) fallback) }

/-- `scope:id`. -/
def scopedId (entry : HarnessEntry) (id : String) : String :=
  s!"{(normalizeHarnessScope (entry.scope.map fun scope => .str scope.text) .local).text}:{id}"

/-- Something stands under the name, be it inherited. -/
def isTaken (records : JsMap String HarnessEntry) (id : String) : Bool :=
  records.has id || id ∈ objectPrototype || id = "__proto__"

def mergeGlobal (merged : JsMap String HarnessEntry) (record : String × HarnessEntry) :
    JsMap String HarnessEntry :=
  setRecord merged record.1 (scopedEntry .global record.2)

def mergeLocal (merged : JsMap String HarnessEntry) (record : String × HarnessEntry) :
    JsMap String HarnessEntry :=
  let mergedId := if isTaken merged record.1 then scopedId record.2 record.1 else record.1
  setRecord merged mergedId (scopedEntry .local record.2)

def mergeHarnessStates (max : Json → Json → Json) (globalState : HarnessState)
    (localState : Option HarnessState) : HarnessState where
  schema := max globalState.schema ((localState.map HarnessState.schema).getD (.num (.ofNat 1)))
  entries kind :=
    let merged := (ownEntries (globalState.entries kind)).foldl mergeGlobal .empty
    match localState with
    | none => merged
    | some localState => (ownEntries (localState.entries kind)).foldl mergeLocal merged
  refinements :=
    globalState.refinements ++ (localState.map HarnessState.refinements).getD []

end Amide
