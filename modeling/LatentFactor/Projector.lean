import LatentFactor.Event
import LatentFactor.Memory
import LatentFactor.Model
import LatentFactor.Block.Solve

/-!
Features for users that were not part of training, from the items they chose.

With `M` the item features, the projector is `M (Mᵀ M)⁻¹`. A known user is the sum of the projector
rows of the items. An anonymous user is the sum of the items' features, each scaled to length one,
divided by the sum of its absolute values. Unknown items are passed over, unless the only item
given is unknown.
-/

set_option autoImplicit false

namespace LatentFactor

structure Projector (α : Type) where
  model : Model α
  projection : RowMatrix α

inductive ProjectionNotice where
  | projecting (items features : Nat)
  | unknownItem (id : EntityId)
  | zeroRow (id : EntityId)
deriving DecidableEq, Repr

def ProjectionNotice.logLine : ProjectionNotice → LogLine
  | projecting items features =>
      ⟨.info, s!"Computing fold-in matrix from a {items} x {features} item features matrix"⟩
  | unknownItem id => ⟨.debug, s!"Item unknown: {id}"⟩
  | zeroRow id => ⟨.debug, s!"Item {id} has an all-zero feature row, skipping"⟩

namespace Projector

variable {α : Type}

def notices (model : Model α) : List ProjectionNotice :=
  if model.items.size = 0 then []
  else [.projecting model.itemCount model.rank]

variable [Scalar α]

def project (items : RowMatrix α) : Except (Failure α) (RowMatrix α) := do
  Memory.reserve (items.cols * items.cols)
  let inverse ← (Block.invert (Block.gram items.cols (items.rows.toList.map fun row => (row, row)))
    : Except (Error α) (Block α))
  let inverse ← (RowMatrix.ofRows items.cols inverse : Except Fault (RowMatrix α))
  items.mul inverse

def create (model : Model α) : Except (Failure α) (Projector α) :=
  if model.items.size = 0 then .ok ⟨model, RowMatrix.zeros 0 model.rank⟩
  else do return ⟨model, ← project model.items⟩

omit [Scalar α] in
def resolve (projector : Projector α) (items : List EntityId) (id : EntityId) :
    Except (Error α) (Option Nat) :=
  match projector.model.itemNumbering.get? id with
  | some row => .ok (some row)
  | none => if items.length = 1 then .error (.unknownId .item id) else .ok none

def accumulate (projector : Projector α) (items : List EntityId)
    (contribute : Row α → Nat → Except Fault (Row α)) : Except (Failure α) (Row α) := do
  Memory.reserve projector.model.rank
  items.foldlM (fun sum id => do
    match ← (projector.resolve items id : Except (Error α) (Option Nat)) with
    | some row => contribute sum row
    | none => return sum) (Row.zeros projector.model.rank)

def addProjection (projector : Projector α) (sum : Row α) (row : Nat) : Except Fault (Row α) := do
  return sum.add (← projector.projection.row row)

def embed (projector : Projector α) (items : List EntityId) : Except (Failure α) (Row α) :=
  projector.accumulate items projector.addProjection

def length (row : Row α) : α := Scalar.sqrt (Row.dot row row)

-- A row of length zero contributes nothing.
def addUnit (projector : Projector α) (sum : Row α) (row : Nat) : Except Fault (Row α) := do
  let features ← projector.model.items.row row
  if 0 < length features then return sum.addScaled (1 / length features) features
  else return sum

def scaleToOne (row : Row α) : Row α :=
  let total := Scalar.sum (row.map Scalar.abs)
  if 0 < total then row.map (· / total) else row

def embedAnonymous (projector : Projector α) (items : List EntityId) :
    Except (Failure α) (Row α) := do
  return scaleToOne (← projector.accumulate items projector.addUnit)

omit [Scalar α] in
def embedNotices (projector : Projector α) (items : List EntityId) : List ProjectionNotice :=
  items.filterMap fun id =>
    if projector.model.itemNumbering.contains id then none else some (.unknownItem id)

def embedAnonymousNotices (projector : Projector α) (items : List EntityId) :
    List ProjectionNotice :=
  items.filterMap fun id =>
    match projector.model.itemNumbering.get? id with
    | none => some (.unknownItem id)
    | some row =>
        match projector.model.items.rows[row]? with
        | some features => if 0 < length features then none else some (.zeroRow id)
        | none => none

end Projector
end LatentFactor
