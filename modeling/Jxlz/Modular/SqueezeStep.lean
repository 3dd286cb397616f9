import Jxlz.Modular.SqueezeChannel

namespace Jxlz.Modular

/-!
# Squeezing one channel

What a step makes of one channel, in either direction, and that the inverse
gives the channel back from it.
-/

/-- All samples of a channel are small. -/
def SmallChannel
    (channel : Channel) :
    Prop :=
  ∀ y, y < channel.h → ∀ x, x < channel.w → SmallSample (channel.sample y x)

/-- The shifts of a channel are 32-bit values. -/
structure ShiftsFit
    (channel : Channel) :
    Prop where
  hshift : -2 ^ 31 ≤ channel.hshift ∧ channel.hshift < 2 ^ 31
  vshift : -2 ^ 31 ≤ channel.vshift ∧ channel.vshift < 2 ^ 31

/-- The shift and the size that a step changes can grow by one. -/
def RoomFor
    (horizontal : Bool)
    (channel : Channel) :
    Prop :=
  if horizontal then channel.hshift + 1 < 2 ^ 31 ∧ channel.w + 1 < 2 ^ 64
  else channel.vshift + 1 < 2 ^ 31 ∧ channel.h + 1 < 2 ^ 64

/-- The channels that a step can squeeze without an overflow. -/
structure Squeezable
    (horizontal : Bool)
    (channel : Channel) :
    Prop where
  small : SmallChannel channel
  shifts : ShiftsFit channel
  room : RoomFor horizontal channel

/-- Averages and residuals of the rows of a channel. -/
structure RowsOf
    (before out res : Channel) :
    Prop where
  outWidth : out.w = (before.w + 1) / 2
  outHeight : out.h = before.h
  resWidth : res.w = before.w / 2
  resHeight : res.h = before.h
  outShift : out.hshift = before.hshift + 1 ∧ out.vshift = before.vshift
  resShift : res.hshift = before.hshift + 1 ∧ res.vshift = before.vshift
  lines :
    ∀ y,
      y < before.h →
      LineSqueezed (before.row y) before.w (out.row y) (res.row y)

/-- Averages and residuals of the columns of a channel. -/
structure ColumnsOf
    (before out res : Channel) :
    Prop where
  outWidth : out.w = before.w
  outHeight : out.h = (before.h + 1) / 2
  resWidth : res.w = before.w
  resHeight : res.h = before.h / 2
  outShift : out.hshift = before.hshift ∧ out.vshift = before.vshift + 1
  resShift : res.hshift = before.hshift ∧ res.vshift = before.vshift + 1
  lines :
    ∀ x,
      x < before.w →
      LineSqueezed (column before x) before.h (column out x) (column res x)

/-- What a step makes of one channel. -/
def ChannelSqueezed
    (horizontal : Bool)
    (before out res : Channel) :
    Prop :=
  if horizontal then RowsOf before out res else ColumnsOf before out res

/-- A squeezed line only depends on its own averages and residuals. -/
theorem LineSqueezed.congr
    {line averages residuals averages' residuals' : Nat → Int32}
    {size : Nat}
    (squeezed : LineSqueezed line size averages residuals)
    (sameAverages :
      ∀ i, i < (size + 1) / 2 → averages' i = averages i)
    (sameResiduals : ∀ i, i < size / 2 → residuals' i = residuals i) :
    LineSqueezed line size averages' residuals' := by
  refine ⟨?_, ?_⟩
  · intro i inside
    rw [sameAverages i (by omega), sameResiduals i inside]
    exact squeezed.pair i inside
  · intro odd
    rw [sameAverages (size / 2) (by omega)]
    exact squeezed.last odd

variable {horizontal : Bool}

/-- Squeezed channels may be replaced by ones with the same samples. -/
theorem ChannelSqueezed.congr
    {before out res out' res' : Channel}
    (squeezed : ChannelSqueezed horizontal before out res)
    (sameOut : out'.Same out)
    (sameRes : res'.Same res) :
    ChannelSqueezed horizontal before out' res' := by
  unfold ChannelSqueezed at squeezed ⊢
  cases horizontal with
  | true =>
      simp only [if_true] at squeezed ⊢
      refine {
        outWidth := sameOut.w.trans squeezed.outWidth
        outHeight := sameOut.h.trans squeezed.outHeight
        resWidth := sameRes.w.trans squeezed.resWidth
        resHeight := sameRes.h.trans squeezed.resHeight
        outShift :=
          ⟨sameOut.hshift.trans squeezed.outShift.1,
            sameOut.vshift.trans squeezed.outShift.2⟩
        resShift :=
          ⟨sameRes.hshift.trans squeezed.resShift.1,
            sameRes.vshift.trans squeezed.resShift.2⟩
        lines := ?_ }
      intro y inHeight
      refine (squeezed.lines y inHeight).congr ?_ ?_
      · intro i inside
        exact sameOut.sample y i (squeezed.outHeight ▸ inHeight)
          (squeezed.outWidth ▸ inside)
      · intro i inside
        exact sameRes.sample y i (squeezed.resHeight ▸ inHeight)
          (squeezed.resWidth ▸ inside)
  | false =>
      simp only [Bool.false_eq_true, if_false] at squeezed ⊢
      refine {
        outWidth := sameOut.w.trans squeezed.outWidth
        outHeight := sameOut.h.trans squeezed.outHeight
        resWidth := sameRes.w.trans squeezed.resWidth
        resHeight := sameRes.h.trans squeezed.resHeight
        outShift :=
          ⟨sameOut.hshift.trans squeezed.outShift.1,
            sameOut.vshift.trans squeezed.outShift.2⟩
        resShift :=
          ⟨sameRes.hshift.trans squeezed.resShift.1,
            sameRes.vshift.trans squeezed.resShift.2⟩
        lines := ?_ }
      intro x inWidth
      refine (squeezed.lines x inWidth).congr ?_ ?_
      · intro i inside
        exact sameOut.sample i x (squeezed.outHeight ▸ inside)
          (squeezed.outWidth ▸ inWidth)
      · intro i inside
        exact sameRes.sample i x (squeezed.resHeight ▸ inside)
          (squeezed.resWidth ▸ inWidth)

/-- One direction or the other. -/
def fwdSqueezeChannel
    (horizontal : Bool)
    (image : ModularImage)
    (c rc : Nat) :
    Checked ModularImage :=
  if horizontal then fwdHSqueeze image c rc else fwdVSqueeze image c rc

def invSqueezeAt
    (horizontal : Bool)
    (image : ModularImage)
    (c rc : Nat) :
    Checked ModularImage :=
  if horizontal then invHSqueeze image c rc else invVSqueeze image c rc

variable {image : ModularImage} {c rc : Nat}

/-- Squeezing one channel of small samples. -/
theorem fwdSqueezeChannel_ok
    {chin : Channel}
    (isChannel : image.channels[c]? = some chin)
    (inside : rc ≤ image.channels.length)
    (squeezable : Squeezable horizontal chin) :
    ∃ out res,
      fwdSqueezeChannel horizontal image c rc =
          .ok { image with
            channels := (image.channels.set c out).insertIdx rc res } ∧
        ChannelSqueezed horizontal chin out res := by
  have found : index image.channels c = .ok chin :=
    index_eq_ok.2 isChannel
  obtain ⟨small, shifts, room⟩ := squeezable
  cases horizontal with
  | true =>
      obtain ⟨shiftRoom, widthRoom⟩ :
          chin.hshift + 1 < 2 ^ 31 ∧ chin.w + 1 < 2 ^ 64 := room
      obtain ⟨⟨out, res⟩, ran, ⟨outSize, resSize⟩, lines⟩ :=
        @squeezeRows_ok chin
          (Channel.create ((chin.w + 1) / 2) chin.h (chin.hshift + 1)
            chin.vshift)
          (Channel.create (chin.w - (chin.w + 1) / 2) chin.h (chin.hshift + 1)
            chin.vshift)
          (fun y inHeight x inWidth => small y inHeight x inWidth) rfl rfl
          (show chin.w - (chin.w + 1) / 2 = chin.w / 2 by omega)
      refine ⟨out, res, ?_, ?_⟩
      · unfold fwdSqueezeChannel fwdHSqueeze
        rw [if_pos rfl, found, ok_bind, addU_ok widthRoom, ok_bind,
          addI32_ok (by have := shifts.hshift.1; omega) shiftRoom, ok_bind]
        have step := ran
        simp only [Channel.create] at step ⊢
        rw [step, ok_bind]
        simp only [List.length_set, require_ok inside, ok_bind, pure_eq_ok]
      · show RowsOf chin out res
        exact {
          outWidth := outSize.w
          outHeight := outSize.h
          resWidth := resSize.w.trans
            (show chin.w - (chin.w + 1) / 2 = chin.w / 2 by omega)
          resHeight := resSize.h
          outShift := ⟨outSize.hshift, outSize.vshift⟩
          resShift := ⟨resSize.hshift, resSize.vshift⟩
          lines := lines }
  | false =>
      obtain ⟨shiftRoom, heightRoom⟩ :
          chin.vshift + 1 < 2 ^ 31 ∧ chin.h + 1 < 2 ^ 64 := room
      obtain ⟨⟨out, res⟩, ran, ⟨outSize, resSize⟩, lines⟩ :=
        @squeezeColumns_ok chin
          (Channel.create chin.w ((chin.h + 1) / 2) chin.hshift
            (chin.vshift + 1))
          (Channel.create chin.w (chin.h - (chin.h + 1) / 2) chin.hshift
            (chin.vshift + 1))
          (fun x inWidth y inHeight => small y inHeight x inWidth) rfl rfl
          (show chin.h - (chin.h + 1) / 2 = chin.h / 2 by omega)
      refine ⟨out, res, ?_, ?_⟩
      · unfold fwdSqueezeChannel fwdVSqueeze
        rw [if_neg Bool.false_ne_true, found, ok_bind, addU_ok heightRoom,
          ok_bind, addI32_ok (by have := shifts.vshift.1; omega) shiftRoom,
          ok_bind]
        have step := ran
        simp only [Channel.create] at step ⊢
        rw [step, ok_bind]
        simp only [List.length_set, require_ok inside, ok_bind, pure_eq_ok]
      · show ColumnsOf chin out res
        exact {
          outWidth := outSize.w
          outHeight := outSize.h
          resWidth := resSize.w
          resHeight := resSize.h.trans
            (show chin.h - (chin.h + 1) / 2 = chin.h / 2 by omega)
          outShift := ⟨outSize.hshift, outSize.vshift⟩
          resShift := ⟨resSize.hshift, resSize.vshift⟩
          lines := lines }

variable {before out res : Channel}

/-- Rows come back from their averages and residuals. -/
theorem invHSqueeze_ok
    (isOut : image.channels[c]? = some out)
    (isRes : image.channels[rc]? = some res)
    (squeezed : RowsOf before out res)
    (squeezable : Squeezable true before) :
    ∃ restored,
      invHSqueeze image c rc =
          .ok { image with channels := image.channels.set c restored } ∧
        restored.Same before := by
  obtain ⟨shiftRoom, widthRoom⟩ :
      before.hshift + 1 < 2 ^ 31 ∧ before.w + 1 < 2 ^ 64 := squeezable.room
  have lower := squeezable.shifts.hshift.1
  have shiftBack : addI32 out.hshift (-1) = .ok before.hshift := by
    rw [squeezed.outShift.1, addI32_ok (by omega) (by omega)]
    congr 1
    omega
  have outWidth := squeezed.outWidth
  have resWidth := squeezed.resWidth
  unfold invHSqueeze
  rw [index_eq_ok.2 isOut, ok_bind, index_eq_ok.2 isRes, ok_bind, shiftBack,
    ok_bind]
  by_cases narrow : res.w = 0
  · -- A line of at most one sample is its own average.
    rw [if_pos narrow]
    refine ⟨{ out with hshift := before.hshift }, rfl, ?_⟩
    refine ⟨⟨?_, squeezed.outHeight, rfl, squeezed.outShift.2⟩, ?_⟩
    · show out.w = before.w
      omega
    · intro y x inHeight inWidth
      have atStart : x = 0 := by omega
      have half : before.w / 2 = 0 := by omega
      have single : before.w - 1 = 0 := by omega
      have last := (squeezed.lines y inHeight).last (by omega)
      rw [half, single] at last
      rw [atStart]
      exact last
  · have total : out.w + res.w = before.w := by omega
    rw [if_neg narrow, addU_ok (by omega), ok_bind, total]
    dsimp only
    by_cases flat : res.h = 0
    · rw [if_pos flat]
      refine ⟨_, rfl, ⟨rfl, squeezed.outHeight, rfl, squeezed.outShift.2⟩, ?_⟩
      intro y x inHeight inWidth
      have noRows := squeezed.resHeight
      omega
    · rw [if_neg flat]
      obtain ⟨next, ran, size, restored⟩ :=
        @unsqueezeRows_ok out res
          (Channel.create before.w out.h before.hshift out.vshift)
          before.sample before.w before.h squeezable.small squeezed.lines
          squeezed.outHeight squeezed.outWidth squeezed.resWidth rfl
      rw [ran, ok_bind]
      refine ⟨next, rfl, ⟨size.w, ?_, size.hshift, ?_⟩, ?_⟩
      · exact size.h.trans squeezed.outHeight
      · exact size.vshift.trans squeezed.outShift.2
      · exact fun y x inHeight inWidth => restored y inHeight x inWidth

/-- Columns come back from their averages and residuals. -/
theorem invVSqueeze_ok
    (isOut : image.channels[c]? = some out)
    (isRes : image.channels[rc]? = some res)
    (squeezed : ColumnsOf before out res)
    (squeezable : Squeezable false before) :
    ∃ restored,
      invVSqueeze image c rc =
          .ok { image with channels := image.channels.set c restored } ∧
        restored.Same before := by
  obtain ⟨shiftRoom, heightRoom⟩ :
      before.vshift + 1 < 2 ^ 31 ∧ before.h + 1 < 2 ^ 64 := squeezable.room
  have lower := squeezable.shifts.vshift.1
  have shiftBack : addI32 out.vshift (-1) = .ok before.vshift := by
    rw [squeezed.outShift.2, addI32_ok (by omega) (by omega)]
    congr 1
    omega
  have outHeight := squeezed.outHeight
  have resHeight := squeezed.resHeight
  unfold invVSqueeze
  rw [index_eq_ok.2 isOut, ok_bind, index_eq_ok.2 isRes, ok_bind, shiftBack,
    ok_bind]
  by_cases low : res.h = 0
  · -- A line of at most one sample is its own average.
    rw [if_pos low]
    refine ⟨{ out with vshift := before.vshift }, rfl, ?_⟩
    refine ⟨⟨squeezed.outWidth, ?_, squeezed.outShift.1, rfl⟩, ?_⟩
    · show out.h = before.h
      omega
    · intro y x inHeight inWidth
      have atStart : y = 0 := by omega
      have half : before.h / 2 = 0 := by omega
      have single : before.h - 1 = 0 := by omega
      have last := (squeezed.lines x inWidth).last (by omega)
      rw [half, single] at last
      rw [atStart]
      exact last
  · have total : out.h + res.h = before.h := by omega
    rw [if_neg low, addU_ok (by omega), ok_bind, total]
    dsimp only
    by_cases thin : res.w = 0
    · rw [if_pos thin]
      refine ⟨_, rfl, ⟨squeezed.outWidth, rfl, squeezed.outShift.1, rfl⟩, ?_⟩
      intro y x inHeight inWidth
      have noColumns := squeezed.resWidth
      omega
    · rw [if_neg thin]
      obtain ⟨next, ran, size, restored⟩ :=
        @unsqueezeColumns_ok out res
          (Channel.create out.w before.h out.hshift before.vshift)
          before.sample before.w before.h
          (fun x inWidth y inHeight => squeezable.small y inHeight x inWidth)
          squeezed.lines squeezed.outWidth squeezed.outHeight
          squeezed.resHeight squeezed.outWidth rfl
      rw [ran, ok_bind]
      refine ⟨next, rfl, ⟨?_, size.h, ?_, size.vshift⟩, ?_⟩
      · exact size.w.trans squeezed.outWidth
      · exact size.hshift.trans squeezed.outShift.1
      · exact fun y x inHeight inWidth => restored y inHeight x inWidth

/-- A squeezed channel comes back. -/
theorem invSqueezeAt_ok
    (isOut : image.channels[c]? = some out)
    (isRes : image.channels[rc]? = some res)
    (squeezed : ChannelSqueezed horizontal before out res)
    (squeezable : Squeezable horizontal before) :
    ∃ restored,
      invSqueezeAt horizontal image c rc =
          .ok { image with channels := image.channels.set c restored } ∧
        restored.Same before := by
  cases horizontal with
  | true =>
      exact invHSqueeze_ok isOut isRes squeezed squeezable
  | false =>
      exact invVSqueeze_ok isOut isRes squeezed squeezable

end Jxlz.Modular
