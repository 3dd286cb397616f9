import Jxlz.Base.Returns
import Jxlz.Base.SoftFloat

namespace Jxlz.Blending

/-!
# Blending one pixel

Mirrors `blending.zig`, whose code is written once for soft-floats and for binary32
words.  The buffer that takes the blended pixel belongs to the caller and overlaps
neither of the two pixels.
-/

inductive Mode where
  | none
  | replace
  | add
  | mul
  | blend_above
  | blend_below
  | alpha_add_above
  | alpha_add_below
  deriving Repr, DecidableEq

structure Info where
  mode : Mode := .none
  alpha_channel : Nat := 0
  clamp : Bool := false
  deriving Repr, DecidableEq

structure Extra where
  is_alpha : Bool := false
  associated : Bool := false
  blend : Info := {}
  deriving Repr, DecidableEq

/-- The arithmetic that blending is written over. -/
structure Numbers (α : Type) where
  zero : α
  fromInt : Int → Checked α
  add : α → α → Checked α
  sub : α → α → Checked α
  mul : α → α → Checked α
  divideAlpha : α → α → Checked α
  cmp : α → α → Int
  negative : α → Bool

/-- The operations fail in allowed ways only. -/
structure Numbers.Allows
    {α : Type}
    (numbers : Numbers α)
    (allowed : Fault → Prop) :
    Prop where
  fromInt : ∀ value, Within allowed (numbers.fromInt value)
  add : ∀ first second, Within allowed (numbers.add first second)
  sub : ∀ first second, Within allowed (numbers.sub first second)
  mul : ∀ first second, Within allowed (numbers.mul first second)
  divideAlpha : ∀ first second, Within allowed (numbers.divideAlpha first second)

/-- The order of soft-floats. -/
def cmp
    (a b : Fixed) :
    Int :=
  let s1 := a.m.sign
  let s2 := b.m.sign
  if s1 ≠ s2 then
    if s1 < s2 then -1 else 1
  else if s1 = 0 then
    0
  else if a.e ≠ b.e then
    let bigger : Int := if b.e < a.e then 1 else -1
    if 0 < s1 then bigger else -bigger
  else if a.m = b.m then
    0
  else
    if a.m < b.m then -1 else 1

/-- `Finite`: the arithmetic of soft-floats. -/
def finite : Numbers Fixed where
  zero := Fixed.zero
  fromInt := fun value => if value = 0 then .ok Fixed.zero else Fixed.norm value 62
  add := Fixed.add
  sub := Fixed.sub
  mul := Fixed.mul
  divideAlpha := fun value alpha =>
    if alpha.m ≤ 0 then .ok Fixed.zero else Fixed.div value alpha
  cmp := cmp
  negative := fun value => decide (value.m < 0)

def usesAlpha : Mode → Bool
  | .blend_above | .blend_below | .alpha_add_above | .alpha_add_below => true
  | _ => false

def below : Mode → Bool
  | .blend_below | .alpha_add_below => true
  | _ => false

section

variable {α : Type}

def clamp
    (numbers : Numbers α)
    (value : α) :
    Checked α := do
  if numbers.negative value then
    return numbers.zero
  else
    let one ← numbers.fromInt 1
    if 0 < numbers.cmp value one then numbers.fromInt 1 else return value

def newAlpha
    (numbers : Numbers α)
    (bottom top : α) :
    Checked α := do
  let one ← numbers.fromInt 1
  let above ← numbers.sub one top
  let under ← numbers.sub one bottom
  let open' ← numbers.mul above under
  numbers.sub one open'

/-- The value of one channel of a mode that mixes by alpha. -/
def mixed
    (numbers : Numbers α)
    (bottom top bga fa : α)
    (associated is_alpha : Bool) :
    Checked α := do
  let alpha ← newAlpha numbers bga fa
  if is_alpha then
    return alpha
  else
    let one ← numbers.fromInt 1
    let remainder ← numbers.sub one fa
    if associated then
      let rest ← numbers.mul bottom remainder
      numbers.add top rest
    else
      let front ← numbers.mul top fa
      let back ← numbers.mul bottom bga
      let rest ← numbers.mul back remainder
      let sum ← numbers.add front rest
      numbers.divideAlpha sum alpha

/-- One channel of a blended pixel. -/
def compute
    (numbers : Numbers α)
    (bottom top bga fga : α)
    (info : Info)
    (associated is_alpha : Bool) :
    Checked α :=
  match info.mode with
  | .none => return bottom
  | .replace => return top
  | .add => numbers.add bottom top
  | .mul => do
      let factor ← (if info.clamp then clamp numbers top else .ok top)
      numbers.mul bottom factor
  | .alpha_add_above | .alpha_add_below => do
      let fa ← (if info.clamp then clamp numbers fga else .ok fga)
      if is_alpha then
        return bottom
      else
        let weighted ← numbers.mul top fa
        numbers.add bottom weighted
  | .blend_above | .blend_below => do
      let fa ← (if info.clamp then clamp numbers fga else .ok fga)
      mixed numbers bottom top bga fa associated is_alpha

/-- Without an alpha channel the color modes that need one are the plain ones. -/
def plainMode
    (hasAlpha : Bool)
    (mode : Mode) :
    Mode :=
  if hasAlpha then
    mode
  else
    match mode with
    | .blend_above | .blend_below => .replace
    | .alpha_add_above | .alpha_add_below => .add
    | _ => mode

/-- The blended sample of an extra channel. -/
def extraSample
    (numbers : Numbers α)
    (bg fg : List α)
    (extras : List Extra)
    (position : Nat)
    (extra : Extra) :
    Checked α := do
  let info := extra.blend
  let bottom := if below info.mode then fg else bg
  let top := if below info.mode then bg else fg
  let alpha := if usesAlpha info.mode then info.alpha_channel else 0
  let bottomSample ← index bottom (3 + position)
  let topSample ← index top (3 + position)
  let bga ← index bottom (3 + alpha)
  let fga ← index top (3 + alpha)
  let owner ← index extras alpha
  compute numbers bottomSample topSample bga fga info owner.associated
    (position = alpha)

/-- The color samples, and the alpha sample when the color blending owns it. -/
def colorSamples
    (numbers : Numbers α)
    (bg fg : List α)
    (info : Info)
    (hasAlpha : Bool)
    (extras : List Extra) :
    Checked (List α × Option (Nat × α)) := do
  let bottom := if below info.mode then fg else bg
  let top := if below info.mode then bg else fg
  let alpha := if usesAlpha info.mode then info.alpha_channel else 0
  let bga ← (if usesAlpha info.mode then index bottom (3 + alpha) else .ok numbers.zero)
  let fga ← (if usesAlpha info.mode then index top (3 + alpha) else .ok numbers.zero)
  let associated ←
    (if usesAlpha info.mode then
      return (← index extras alpha).associated
    else
      .ok false : Checked Bool)
  let samples ←
    (List.range 3).mapM fun c => do
      let bottomSample ← index bottom c
      let topSample ← index top c
      compute numbers bottomSample topSample bga fga info associated false
  if hasAlpha ∧ (info.mode = .blend_above ∨ info.mode = .blend_below) then
    let fa ← (if info.clamp then clamp numbers fga else .ok fga)
    let owned ← newAlpha numbers bga fa
    return (samples, some (alpha, owned))
  else
    return (samples, none)

/-- The blend of a background pixel and a foreground pixel. -/
def pixel
    (numbers : Numbers α)
    (bg fg : List α)
    (color : Info)
    (extras : List Extra) :
    Checked (List α) := do
  if 256 < extras.length ∨ bg.length ≠ extras.length + 3 ∨ fg.length ≠ bg.length then
    fail .GenericError
  else
    let hasAlpha := extras.any (·.is_alpha)
    if
        (extras.any fun extra =>
          usesAlpha extra.blend.mode ∧ extras.length ≤ extra.blend.alpha_channel) ∨
        hasAlpha ∧ usesAlpha color.mode ∧ extras.length ≤ color.alpha_channel then
      fail .GenericError
    else
      let extraSamples ←
        extras.zipIdx.mapM fun (extra, position) =>
          extraSample numbers bg fg extras position extra
      let info := { color with mode := plainMode hasAlpha color.mode }
      let (samples, owned) ← colorSamples numbers bg fg info hasAlpha extras
      match owned with
      | some (alpha, value) => store (samples ++ extraSamples) (3 + alpha) value
      | none => return samples ++ extraSamples

/-! What blending fails with, and how many samples it gives. -/

variable {numbers : Numbers α} {allowed : Fault → Prop} {info : Info}
  {bg fg : List α} {extras : List Extra}

/-- Both pixels have three color samples and one for every extra channel. -/
structure Sized
    (bg fg : List α)
    (extras : List Extra) :
    Prop where
  background : bg.length = extras.length + 3
  foreground : fg.length = extras.length + 3

theorem Sized.below
    (sized : Sized bg fg extras)
    (flipped : Bool) :
    (if flipped then fg else bg).length = extras.length + 3 := by
  cases flipped with
  | false => exact sized.background
  | true => exact sized.foreground

theorem Sized.above
    (sized : Sized bg fg extras)
    (flipped : Bool) :
    (if flipped then bg else fg).length = extras.length + 3 := by
  cases flipped with
  | false => exact sized.foreground
  | true => exact sized.background

/-- The alpha channel of a mode that uses one is among the extra channels. -/
def NamesAlpha
    (info : Info)
    (extras : List Extra) :
    Prop :=
  usesAlpha info.mode = true → info.alpha_channel < extras.length

/-- Three color samples, and perhaps one for an alpha channel that there is. -/
theorem colorSamples_shape
    {hasAlpha : Bool}
    {result : List α × Option (Nat × α)}
    (names : NamesAlpha info extras)
    (computed : colorSamples numbers bg fg info hasAlpha extras = .ok result) :
    result.1.length = 3 ∧
      ∀ alpha value, result.2 = some (alpha, value) → alpha < extras.length := by
  unfold colorSamples at computed
  obtain ⟨bga, _, computed⟩ := bind_eq_ok.1 computed
  obtain ⟨fga, _, computed⟩ := bind_eq_ok.1 computed
  obtain ⟨associated, _, computed⟩ := bind_eq_ok.1 computed
  obtain ⟨samples, mapped, computed⟩ := bind_eq_ok.1 computed
  have three : samples.length = 3 := by
    rw [← (forall₂_of_mapM_eq_ok mapped).length_eq, List.length_range]
  split at computed
  · next owns =>
      obtain ⟨fa, _, computed⟩ := bind_eq_ok.1 computed
      obtain ⟨owned, _, computed⟩ := bind_eq_ok.1 computed
      cases computed
      refine ⟨three, ?_⟩
      rintro alpha value ⟨⟩
      have uses : usesAlpha info.mode = true := by
        rcases owns.2 with isAbove | isBelow
        · rw [isAbove]
          rfl
        · rw [isBelow]
          rfl
      rw [if_pos uses]
      exact names uses
  · cases computed
    exact ⟨three, nofun⟩

/-- The arguments that are blended, and not refused. -/
structure Accepted
    (bg fg : List α)
    (color : Info)
    (extras : List Extra) :
    Prop where
  sized : Sized bg fg extras
  extraNames : ∀ extra ∈ extras, NamesAlpha extra.blend extras
  colorNames :
    NamesAlpha
      { color with mode := plainMode (extras.any (·.is_alpha)) color.mode } extras

theorem plainMode_usesAlpha
    {hasAlpha : Bool}
    {mode : Mode} :
    usesAlpha (plainMode hasAlpha mode) = (hasAlpha && usesAlpha mode) := by
  cases hasAlpha with
  | true => rfl
  | false => cases mode <;> rfl

/-- The pixel is refused, or its samples are computed. -/
theorem pixel_cases
    (numbers : Numbers α)
    (bg fg : List α)
    (color : Info)
    (extras : List Extra) :
    pixel numbers bg fg color extras = fail .GenericError ∨
      Accepted bg fg color extras ∧
        pixel numbers bg fg color extras = (do
          let extraSamples ←
            extras.zipIdx.mapM fun (extra, position) =>
              extraSample numbers bg fg extras position extra
          let hasAlpha := extras.any (·.is_alpha)
          let info := { color with mode := plainMode hasAlpha color.mode }
          let (samples, owned) ← colorSamples numbers bg fg info hasAlpha extras
          match owned with
          | some (alpha, value) => store (samples ++ extraSamples) (3 + alpha) value
          | none => return samples ++ extraSamples) := by
  unfold pixel
  split
  · exact Or.inl rfl
  · next sizes =>
      dsimp only
      split
      · exact Or.inl rfl
      · next names =>
          refine Or.inr ⟨⟨⟨by omega, by omega⟩, ?_, ?_⟩, rfl⟩
          · intro extra isMember uses
            by_contra outside
            refine names (Or.inl (List.any_eq_true.2 ⟨extra, isMember, ?_⟩))
            exact decide_eq_true ⟨uses, Nat.le_of_not_lt outside⟩
          · intro uses
            rw [plainMode_usesAlpha, Bool.and_eq_true] at uses
            by_contra outside
            exact names (Or.inr ⟨uses.1, uses.2, Nat.le_of_not_lt outside⟩)

/-- A blended pixel has as many samples as the background. -/
theorem length_pixel
    {color : Info}
    {result : List α}
    (blended : pixel numbers bg fg color extras = .ok result) :
    result.length = bg.length := by
  rcases pixel_cases numbers bg fg color extras with isRefused | ⟨accepted, isPixel⟩
  · rw [isRefused] at blended
    exact nomatch blended
  · rw [isPixel] at blended
    obtain ⟨extraSamples, mapped, blended⟩ := bind_eq_ok.1 blended
    obtain ⟨⟨samples, owned⟩, computed, blended⟩ := bind_eq_ok.1 blended
    obtain ⟨three, inExtras⟩ := colorSamples_shape accepted.colorNames computed
    have many : extraSamples.length = extras.length := by
      rw [← (forall₂_of_mapM_eq_ok mapped).length_eq, List.length_zipIdx]
    have total : (samples ++ extraSamples).length = bg.length := by
      dsimp only at three
      rw [List.length_append, three, many, accepted.sized.background, Nat.add_comm]
    cases owned with
    | none =>
        cases blended
        exact total
    | some owner =>
        obtain ⟨alpha, value⟩ := owner
        have inside := inExtras alpha value rfl
        dsimp only at blended three
        rw [store_ok (by rw [List.length_append, three, many]; omega),
          Except.ok.injEq] at blended
        rw [← blended, List.length_set, total]

end

end Jxlz.Blending
