import LatentFactor.Numbering
import LatentFactor.RowMatrix

set_option autoImplicit false

namespace LatentFactor

structure Model (α : Type) where
  userNumbering : Numbering
  itemNumbering : Numbering
  users : RowMatrix α
  items : RowMatrix α
  errors : List (Option α)

namespace Model

variable {α : Type}

def create (userNumbering itemNumbering : Numbering) (users items : RowMatrix α)
    (errors : List (Option α)) : Except (Error α) (Model α) :=
  if users.size ≠ userNumbering.size then
    .error (.mismatch (.rowCount .user users.size userNumbering.size))
  else if items.size ≠ itemNumbering.size then
    .error (.mismatch (.rowCount .item items.size itemNumbering.size))
  else if users.cols ≠ items.cols then
    .error (.mismatch (.featureCount users.cols items.cols))
  else .ok ⟨userNumbering, itemNumbering, users, items, errors⟩

def userCount (model : Model α) : Nat := model.userNumbering.size
def itemCount (model : Model α) : Nat := model.itemNumbering.size
def rank (model : Model α) : Nat := model.items.cols

def userRow (model : Model α) (id : EntityId) : Except (Failure α) (Row α) := do
  let row ← (model.userNumbering.rowOf id : Except (Error α) Nat)
  model.users.row row

def itemRow (model : Model α) (id : EntityId) : Except (Failure α) (Row α) := do
  let row ← (model.itemNumbering.rowOf id : Except (Error α) Nat)
  model.items.row row

def predict [Scalar α] (model : Model α) (user item : EntityId) : Except (Failure α) α := do
  let x ← model.userRow user
  let y ← model.itemRow item
  Row.dot? x y

end Model
end LatentFactor
