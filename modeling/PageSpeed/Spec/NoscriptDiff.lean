import PageSpeed.Choice.Diff
import PageSpeed.Spec.StringUtil

/-!
# The cross-check of a removal

Whether two readings of a page have the same elements (`DiffRunsAgree` of
`src/worker/noscript_strip.cc`): a bounded shortest edit script between the names of the elements. A
read outside a vector is `none`.
-/

namespace PageSpeed.NoscriptStrip

open Diff Wire

/-- The most edits that are looked for. -/
def kMaxEdits : ℕ := 1024

/-- The most edits in a row on either side. -/
def kMaxIsolatedRun : ℕ := 2

/-- The most deletions in a row. -/
def kMaxDeletionRun : ℕ := 1

/-- The most deletions in all. -/
def kMaxDeletions : ℕ := 3

/-- Where diagonal `k` stands in a vector. -/
def slot (maxD : ℕ) (k : ℤ) : Option ℕ :=
  if 0 ≤ k + (maxD + 1) then some (k + (maxD + 1)).toNat else none

/-- The entry of a diagonal. -/
def valueAt (maxD : ℕ) (v : List ℤ) (k : ℤ) : Option ℤ := do v[← slot maxD k]?

/-- The entry of a diagonal replaced. -/
def setAt (maxD : ℕ) (v : List ℤ) (k x : ℤ) : Option (List ℤ) := do
  let i ← slot maxD k
  if i < v.length then some (v.set i x) else none

/-- The diagonal the search comes from: `k + 1` if true, `k - 1` if not. -/
def fromAbove (maxD : ℕ) (v : List ℤ) (d : ℕ) (k : ℤ) : Option Bool :=
  if k = -d then some true
  else if k = d then some false
  else do return decide ((← valueAt maxD v (k - 1)) < (← valueAt maxD v (k + 1)))

/-- Where the search starts on the diagonal. -/
def startAt (maxD : ℕ) (v : List ℤ) (d : ℕ) (k : ℤ) : Option ℤ := do
  if ← fromAbove maxD v d k then valueAt maxD v (k + 1) else return (← valueAt maxD v (k - 1)) + 1

section Names

variable (a b : List Bytes) (maxD : ℕ)

/-- The loop over matching elements. -/
def snake (x y : ℤ) : Option ℤ :=
  if x < a.length ∧ y < b.length then
    if 0 ≤ x ∧ 0 ≤ y then some (x + commonLength stringCaseEqual (a.drop x.toNat) (b.drop y.toNat))
    else none
  else some x

/-- A round over the diagonals: the vector, and whether the ends of both lists are reached. -/
def searchRound (d : ℕ) : List ℤ → List ℤ → Option (List ℤ × Bool)
  | [], v => some (v, false)
  | k :: ks, v => do
    let x ← startAt maxD v d k
    let x ← snake a b x (x - k)
    let v ← setAt maxD v k x
    if x ≥ a.length ∧ x - k ≥ b.length then return (v, true) else searchRound d ks v

/-- The diagonals of a round, every second one. -/
def diagonals (d : ℕ) : List ℤ := (List.range (d + 1)).map fun i : ℕ => -(d : ℤ) + 2 * i

/-- The rounds from `d` on: the round that ends the search, with the vectors before each round. -/
def search : ℕ → ℕ → List ℤ → List (List ℤ) → Option (Option (ℕ × List (List ℤ)))
  | 0, _, _, _ => some none
  | n + 1, d, v, traces => do
    let (v', found) ← searchRound a b maxD d (diagonals d) v
    if found then return some (d, traces ++ [v]) else search n (d + 1) v' (traces ++ [v])

end Names

/-- The edits of the run that is open, and the deletions before it. -/
structure Tally where
  deleted : ℕ := 0
  inserted : ℕ := 0
  deletions : ℕ := 0

/-- The run is short enough to be noise. -/
def Tally.runOk (t : Tally) : Bool :=
  t.deleted ≤ kMaxIsolatedRun && t.inserted ≤ kMaxIsolatedRun && t.deleted ≤ kMaxDeletionRun &&
    t.deletions + t.deleted ≤ kMaxDeletions

/-- The walk back, one edit a round. -/
def walk (maxD : ℕ) (traces : List (List ℤ)) : ℕ → ℤ → ℤ → Tally → Option Bool
  | 0, _, _, t => some t.runOk
  | d + 1, x, y, t => do
    let pv ← traces[d + 1]?
    let k := x - y
    let prevK := if ← fromAbove maxD pv (d + 1) k then k + 1 else k - 1
    let prevX ← valueAt maxD pv prevK
    let prevY := prevX - prevK
    -- the loop that steps back over matching elements
    let matched := min (x - prevX) (y - prevY)
    if 0 < matched ∧ t.runOk = false then return false
    let t := if 0 < matched then { deletions := t.deletions + t.deleted } else t
    walk maxD traces d prevX prevY
      (if x - max 0 matched = prevX then { t with inserted := t.inserted + 1 }
        else { t with deleted := t.deleted + 1 })

/-- Two edits for every hundred names, with a floor and a ceiling. -/
def maxEdits (scanned kept : List Bytes) : ℕ :=
  min (2 * max 3 (max scanned.length kept.length / 100)) kMaxEdits

/-- The search and the walk, without the common ends. -/
def agreeWithin (maxD : ℕ) (a b : List Bytes) : Option Bool := do
  match ← search a b maxD (maxD + 1) 0 (List.replicate (2 * maxD + 3) 0) [] with
  | none => return false
  | some (d, traces) => walk maxD traces d a.length b.length {}

/-- The shortest script between the two lists is made of short runs; `none` would be an access
outside of the table. -/
def diffRunsAgree (scanned kept : List Bytes) : Option Bool :=
  -- the common start and the common end
  let lo := commonLength stringCaseEqual scanned kept
  let a := (scanned.drop lo).reverse
  let b := (kept.drop lo).reverse
  let hi := commonLength stringCaseEqual a b
  let a := (a.drop hi).reverse
  let b := (b.drop hi).reverse
  if a.length = 0 ∧ b.length = 0 then some true else agreeWithin (maxEdits scanned kept) a b

/-- What a script may have between two elements that match: few deletions and few insertions. -/
def Isolated (s : List Edit) : Prop :=
  ∀ run, run <:+: s → .keep ∉ run → run.count .delete ≤ kMaxDeletionRun ∧
    run.count .insert ≤ kMaxIsolatedRun

end PageSpeed.NoscriptStrip
