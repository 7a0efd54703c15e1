import GateSim.Pin

/-!
# Pin maps

What is known of each pin of a device, listed in the order of the pins' ids; an output without a
name comes first.
-/

namespace GateSim

/-- The place of a pin among the pins of a device. -/
class PinRank (κ : Type) where
  rank : κ → Nat

instance : PinRank NameId := ⟨fun id => id⟩

instance : PinRank OutputPin := ⟨fun pin => pin.elim 0 (· + 1)⟩

/-- An entry for each pin, with ascending ranks. -/
abbrev PinMap (κ α : Type) := List (κ × α)

namespace PinMap

variable {κ α : Type}

def get? [BEq κ] (m : PinMap κ α) (pin : κ) : Option α := m.lookup pin

def contains [BEq κ] (m : PinMap κ α) (pin : κ) : Bool := (m.get? pin).isSome

/-- Sets the entry of a pin, which is made at its place if there is none. -/
def put [BEq κ] [PinRank κ] (pin : κ) (a : α) : PinMap κ α → PinMap κ α
  | [] => [(pin, a)]
  | (k, b) :: m =>
    if k == pin then (pin, a) :: m
    else if PinRank.rank pin < PinRank.rank k then (pin, a) :: (k, b) :: m
    else (k, b) :: put pin a m

def putAll [BEq κ] [PinRank κ] (entries : List (κ × α)) (m : PinMap κ α) : PinMap κ α :=
  entries.foldl (fun m e => m.put e.1 e.2) m

def erase [BEq κ] (pin : κ) (m : PinMap κ α) : PinMap κ α := m.filter fun e => !(e.1 == pin)

@[simp] theorem get?_nil [BEq κ] (pin : κ) : get? ([] : PinMap κ α) pin = none := rfl

theorem get?_put [BEq κ] [LawfulBEq κ] [PinRank κ] (m : PinMap κ α) (pin pin' : κ) (a : α) :
    (m.put pin a).get? pin' = if pin' == pin then some a else m.get? pin' := by
  unfold get?
  fun_induction put pin a m <;> grind

end PinMap

end GateSim
