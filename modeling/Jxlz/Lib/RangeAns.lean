import Mathlib

/-!
# Range asymmetric numeral systems with renormalisation

A symbol table divides `total` slots among symbols.  Pushing a symbol maps a
state to a larger one and popping undoes it.  The state is kept in the interval
`[lower, base * lower)`: before a push a digit of base `base` may move out,
after the matching pop it moves back in.  The two sides agree on when that
happens, so a popped state needs no side information.
-/

/-- How `total` slots are shared out among the symbols. -/
structure RangeAns (Symbol : Type*) where
  total : Nat
  freq : Symbol → Nat
  slot : Symbol → Nat → Nat
  lookup : Nat → Symbol × Nat
  freq_le : ∀ symbol, freq symbol ≤ total
  slot_lt : ∀ symbol offset, offset < freq symbol → slot symbol offset < total
  lookup_slot :
    ∀ symbol offset,
      offset < freq symbol → lookup (slot symbol offset) = (symbol, offset)

namespace RangeAns

variable {Symbol : Type*}
variable (table : RangeAns Symbol)

/-- The state after pushing a symbol. -/
def push
    (symbol : Symbol)
    (state : Nat) :
    Nat :=
  state / table.freq symbol * table.total +
    table.slot symbol (state % table.freq symbol)

/-- The slot that a pushed state shows. -/
theorem push_mod
    {symbol : Symbol}
    (possible : 0 < table.freq symbol)
    (state : Nat) :
    table.push symbol state % table.total =
      table.slot symbol (state % table.freq symbol) := by
  have slotLt := table.slot_lt symbol _ (Nat.mod_lt state possible)
  rw [push, Nat.mul_comm, Nat.mul_add_mod, Nat.mod_eq_of_lt slotLt]

/-- The rest of a pushed state. -/
theorem push_div
    {symbol : Symbol}
    (possible : 0 < table.freq symbol)
    (state : Nat) :
    table.push symbol state / table.total = state / table.freq symbol := by
  have slotLt := table.slot_lt symbol _ (Nat.mod_lt state possible)
  rw [push, Nat.mul_comm, Nat.mul_add_div (by omega),
    Nat.div_eq_of_lt slotLt, Nat.add_zero]

/-- The state interval: `lower` is `scale` times the number of slots. -/
def InRange
    (base scale state : Nat) :
    Prop :=
  table.total * scale ≤ state ∧ state < base * (table.total * scale)

/-- The states from which a digit has to move out before a push. -/
def limit
    (base scale : Nat)
    (symbol : Symbol) :
    Nat :=
  table.freq symbol * (base * scale)

/-- The state after a digit has moved out, where one has to. -/
def shrink
    (base scale : Nat)
    (symbol : Symbol)
    (state : Nat) :
    Nat :=
  if table.limit base scale symbol ≤ state then state / base else state

section Renormalisation

variable {base scale : Nat}

/-- A state falls below the interval exactly when a digit moved out. -/
theorem shrink_lt_iff
    (symbol : Symbol)
    {state : Nat}
    (inRange : table.InRange base scale state) :
    table.shrink base scale symbol state < table.total * scale ↔
      table.limit base scale symbol ≤ state := by
  unfold shrink
  split
  next moves =>
    simp only [moves, iff_true]
    have below := inRange.2
    exact Nat.div_lt_of_lt_mul below
  next stays =>
    have above := inRange.1
    simp only [stays, iff_false]
    omega

/-- A shrunk state is below the limit that lets the push stay in range. -/
theorem shrink_lt_limit
    {symbol : Symbol}
    {state : Nat}
    (possible : 0 < table.freq symbol)
    (enoughBase : table.total ≤ base)
    (inRange : table.InRange base scale state) :
    table.shrink base scale symbol state < table.limit base scale symbol := by
  unfold shrink
  split
  next moves =>
    have below : state / base < table.total * scale :=
      Nat.div_lt_of_lt_mul inRange.2
    have grows : table.total * scale ≤ table.limit base scale symbol := by
      calc
        table.total * scale
            ≤ base * scale := Nat.mul_le_mul_right _ enoughBase
        _ ≤ table.freq symbol * (base * scale) :=
            Nat.le_mul_of_pos_left _ possible
    exact Nat.lt_of_lt_of_le below grows
  next stays =>
    omega

/-- A shrunk state is large enough for the push to stay in range. -/
theorem freq_mul_scale_le_shrink
    (symbol : Symbol)
    {state : Nat}
    (positiveBase : 0 < base)
    (inRange : table.InRange base scale state) :
    table.freq symbol * scale ≤ table.shrink base scale symbol state := by
  unfold shrink
  split
  next moves =>
    rw [Nat.le_div_iff_mul_le positiveBase]
    calc
      table.freq symbol * scale * base
          = table.limit base scale symbol := by
            rw [limit]
            ring
      _ ≤ state := moves
  next stays =>
    exact Nat.le_trans (Nat.mul_le_mul_right _ (table.freq_le symbol))
      inRange.1

/-- Pushing after shrinking keeps the state in range. -/
theorem push_inRange
    {symbol : Symbol}
    {state : Nat}
    (possible : 0 < table.freq symbol)
    (enoughBase : table.total ≤ base)
    (positiveBase : 0 < base)
    (inRange : table.InRange base scale state) :
    table.InRange base scale
      (table.push symbol (table.shrink base scale symbol state)) := by
  have upper := table.shrink_lt_limit possible enoughBase inRange
  have lower :=
    table.freq_mul_scale_le_shrink symbol positiveBase inRange
  generalize table.shrink base scale symbol state = shrunk at upper lower
  have slotLt :=
    table.slot_lt symbol _ (Nat.mod_lt shrunk possible)
  have quotientLower : scale ≤ shrunk / table.freq symbol := by
    rw [Nat.le_div_iff_mul_le possible, Nat.mul_comm]
    exact lower
  have quotientUpper : shrunk / table.freq symbol < base * scale :=
    Nat.div_lt_of_lt_mul upper
  constructor
  · calc
      table.total * scale
          ≤ table.total * (shrunk / table.freq symbol) :=
            Nat.mul_le_mul_left _ quotientLower
      _ = shrunk / table.freq symbol * table.total := Nat.mul_comm _ _
      _ ≤ table.push symbol shrunk := Nat.le_add_right _ _
  · calc
      table.push symbol shrunk
          < shrunk / table.freq symbol * table.total + table.total :=
            Nat.add_lt_add_left slotLt _
      _ = (shrunk / table.freq symbol + 1) * table.total :=
            (Nat.succ_mul _ _).symm
      _ ≤ base * scale * table.total :=
            Nat.mul_le_mul_right _ quotientUpper
      _ = base * (table.total * scale) := by ring

/-- Moving the digit back in restores the state before the push. -/
theorem shrink_restore
    (symbol : Symbol)
    {state : Nat}
    (inRange : table.InRange base scale state) :
    (if table.shrink base scale symbol state < table.total * scale then
        table.shrink base scale symbol state * base + state % base
      else
        table.shrink base scale symbol state) = state := by
  rw [if_congr (table.shrink_lt_iff symbol inRange) rfl rfl]
  unfold shrink
  split
  next moves =>
    rw [Nat.mul_comm, Nat.div_add_mod]
  next stays =>
    rfl

end Renormalisation

end RangeAns
