/-!
# Results of native functions
-/

namespace QNode.Engine

inductive JsError
  | typeError (message : String)
  | rangeError (message : String)
  | internalError (message : String)
  deriving DecidableEq, Repr

/-- How a native function ends: with a value, with an exception, or in the allocator's assertion
that no block of zero bytes is requested. -/
inductive Outcome (α : Type)
  | ok (value : α)
  | throw (error : JsError)
  | abort
  deriving DecidableEq, Repr

def Outcome.map {α β : Type} (f : α → β) : Outcome α → Outcome β
  | .ok value => .ok (f value)
  | .throw error => .throw error
  | .abort => .abort

/-- `js_malloc` of a size that may be zero; the allocation itself is taken to succeed. -/
def withBlock {α : Type} (size : Nat) (rest : Outcome α) : Outcome α :=
  if size = 0 then .abort else rest

theorem withBlock_pos {α : Type} {size : Nat} (h : size ≠ 0) (rest : Outcome α) :
    withBlock size rest = rest :=
  if_neg h

end QNode.Engine
