/-
Sample loop bodies.

Each `Scenario` is a loop body that shows one feature of the analysis, with the
upper bound of its outer loop variable as a parameter.
-/
import LoopBounds.Body.Builder

namespace LoopBounds.Demo

open Build

/-- A sample loop body. -/
inductive Scenario where
  /-- `out[64 * i0 + i1] = in[i1] * 2`: a strided store. -/
  | strided
  /-- `out[i0] = table[32 * tmp0 + i0]`: a read at a computed index `tmp0`. -/
  | gather
  /-- `out[i0] = i0 < 100 ? i0 * 2 : 0`: a masked subblock. -/
  | masked
  /-- A running maximum over a reduction. -/
  | reduction
deriving DecidableEq, Repr

namespace Scenario

/-- All scenarios. -/
def all : List Scenario :=
  [.strided, .gather, .masked, .reduction]

/-- The name of the scenario. -/
def name : Scenario → String
  | .strided => "strided"
  | .gather => "gather"
  | .masked => "masked"
  | .reduction => "reduction"

/-- The scenario of this name. -/
def ofName? (name : String) : Option Scenario :=
  all.find? (·.name = name)

/-- A strided store of loaded values. -/
def buildStrided (extent : Int) : Build Unit := do
  varRange "i0" (.const extent)
  varRange "i1" 63
  indexExpr "index0" (.sym "i1")
  indexExpr "index1" (64 * .sym "i0" + .sym "i1")
  let loadIndex ← getIndex .root "index0"
  let x ← load .root "in" loadIndex
  let two ← constant .root 2
  let y ← op .root "mul" [x, two]
  let storeIndex ← indexValue .root "index1"
  let _ ← op .root "store" [storeIndex, y]
  let _ ← output .root y

/-- A read at an index that is itself computed from indices, so it stays bounded. -/
def buildGather (extent : Int) : Build Unit := do
  varRange "i0" (.const extent)
  indexExpr "index0" (.sym "i0" / 4)
  indexExpr "index1" (.sym "i0" % 32)
  indexExpr "index2" (.sym "tmp0" * 32 + .sym "i0")
  let tmp ← indirectVar "tmp0"
  let v ← indexValue .root "index0"
  let wrapped ← indexValue .root "index1"
  let slot ← op .root "minimum" [v, wrapped]
  let _ ← setIndirect .root tmp slot
  let index ← getIndex .root "index2"
  let x ← load .root "table" index
  let _ ← output .root x

/-- A value computed in a subblock where a comparison holds. -/
def buildMasked (extent : Int) : Build Unit := do
  varRange "i0" (.const extent)
  indexExpr "index0" (.sym "i0")
  let sub ← subblock
  let v ← indexValue (.subblock sub) "index0"
  let two ← constant (.subblock sub) 2
  let doubled ← op (.subblock sub) "mul" [v, two]
  let _ ← output (.subblock sub) doubled
  let i ← indexValue .root "index0"
  let limit ← constant .root 100
  let mask ← op .root "lt" [i, limit]
  let m ← maskedSubblock .root sub mask 0
  let _ ← output .root m

/-- The maximum of a reduction and an index. -/
def buildReduction (extent : Int) : Build Unit := do
  varRange "i0" (.const extent)
  indexExpr "index0" (.sym "i0")
  let index ← getIndex .root "index0"
  let x ← load .root "in" index
  let r ← Build.reduction .root x
  let i ← indexValue .root "index0"
  let y ← op .root "maximum" [r, i]
  let _ ← output .root y

/-- The loop body of the scenario, with the upper bound of its outer loop variable. -/
def body (scenario : Scenario) (extent : Int) : Body :=
  match scenario with
  | .strided => (buildStrided extent).body
  | .gather => (buildGather extent).body
  | .masked => (buildMasked extent).body
  | .reduction => (buildReduction extent).body

end Scenario

end LoopBounds.Demo
