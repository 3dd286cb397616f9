import Jxlz.Modular.SqueezeLine

namespace Jxlz.Modular

/-!
# Squeezing one channel

The loops over rows and columns squeeze every line of a channel, and those of
the inverse restore every line.
-/

variable (channel : Channel)

theorem row_set_of_ne
    {y row : Nat}
    (other : row ≠ y)
    (x : Nat)
    (value : Int32) :
    (channel.set y x value).row row = channel.row row := by
  funext position
  simp only [Channel.row, Channel.sample_set, other, false_and, if_false]

theorem sample_set_same
    (y x : Nat)
    (value : Int32) :
    (channel.set y x value).sample y x = value := by
  simp only [Channel.sample_set, and_self, if_true]

theorem sample_set_of_ne
    {y x row position : Nat}
    (other : row ≠ y ∨ position ≠ x)
    (value : Int32) :
    (channel.set y x value).sample row position =
      channel.sample row position := by
  rw [Channel.sample_set, if_neg (by omega)]

theorem sameSize_set
    (y x : Nat)
    (value : Int32) :
    (channel.set y x value).SameSize channel :=
  ⟨rfl, rfl, rfl, rfl⟩

section Forward

variable {chin chout chout_residual : Channel}

/-- The sizes that the two result channels keep. -/
def SameSizes
    (chout chout_residual : Channel)
    (state : Channel × Channel) :
    Prop :=
  state.1.SameSize chout ∧ state.2.SameSize chout_residual

/-- The rows before a position are squeezed. -/
def RowsSqueezed
    (chin : Channel)
    (y : Nat)
    (state : Channel × Channel) :
    Prop :=
  ∀ row,
    row < y →
    LineSqueezed (chin.row row) chin.w (state.1.row row) (state.2.row row)

/-- The pairs of a row before a position are squeezed. -/
def PairsSqueezed
    (chin : Channel)
    (y x : Nat)
    (state : Channel × Channel) :
    Prop :=
  ∀ i,
    i < x →
    PairSqueezed (chin.row y) chin.w i (state.1.row y i) (state.2.row y i)

variable {state : Channel × Channel}

/-- The pair loop of a row squeezes its pairs and leaves earlier rows alone. -/
theorem squeezeRow_pairs
    (small : SmallLine (chin.row y) chin.w)
    (residualWidth : chout_residual.w = chin.w / 2)
    (sizes : SameSizes chout chout_residual state)
    (rows : RowsSqueezed chin y state) :
    ∃ next,
      (List.range chout_residual.w).foldlM
          (fun state x =>
            squeezeAt (chin.row y) chin.w chout_residual.w x y x state)
          state = .ok next ∧
        SameSizes chout chout_residual next ∧
        RowsSqueezed chin y next ∧
        PairsSqueezed chin y chout_residual.w next := by
  refine
    foldlM_range_ok
      (fun x state =>
        SameSizes chout chout_residual state ∧
          RowsSqueezed chin y state ∧ PairsSqueezed chin y x state)
      chout_residual.w
      ⟨sizes, rows, fun i none => absurd none (Nat.not_lt_zero i)⟩ ?_
  rintro x ⟨out, res⟩ inWidth ⟨⟨outSize, resSize⟩, rows, pairs⟩
  rw [residualWidth] at inWidth ⊢
  obtain ⟨avg, residual, squeezed⟩ := squeezePixel_ok small inWidth
  refine ⟨(out.set y x avg, res.set y x residual), ?_, ⟨?_, ?_⟩, ?_, ?_⟩
  · rw [squeezeAt, squeezed]
    rfl
  · exact (sameSize_set _ _ _ _).trans outSize
  · exact (sameSize_set _ _ _ _).trans resSize
  · intro row earlier
    rw [row_set_of_ne _ (Nat.ne_of_lt earlier),
      row_set_of_ne _ (Nat.ne_of_lt earlier)]
    exact rows row earlier
  · intro i upTo
    unfold Channel.row
    rcases Nat.lt_succ_iff_lt_or_eq.1 upTo with earlier | rfl
    · rw [sample_set_of_ne _ (.inr (Nat.ne_of_lt earlier)),
        sample_set_of_ne _ (.inr (Nat.ne_of_lt earlier))]
      exact pairs i earlier
    · rw [sample_set_same, sample_set_same]
      exact pairSqueezed_of_squeezePixel squeezed

/-- One row is squeezed. -/
theorem squeezeRow_ok
    (small : SmallLine (chin.row y) chin.w)
    (width : chout.w = (chin.w + 1) / 2)
    (residualWidth : chout_residual.w = chin.w / 2)
    (sizes : SameSizes chout chout_residual state)
    (rows : RowsSqueezed chin y state) :
    ∃ next,
      squeezeRow chin chout chout_residual state y = .ok next ∧
        SameSizes chout chout_residual next ∧
        RowsSqueezed chin (y + 1) next := by
  obtain ⟨⟨out, res⟩, ran, ⟨outSize, resSize⟩, rows, pairs⟩ :=
    squeezeRow_pairs small residualWidth sizes rows
  rw [squeezeRow, ran, ok_bind]
  by_cases odd : chin.w &&& 1 ≠ 0
  · have isOdd := and_one_ne_zero.1 odd
    have lastPlace : chout.w - 1 = chin.w / 2 := by
      omega
    have lastSample : chin.w / 2 * 2 = chin.w - 1 := by
      omega
    simp only [lastPlace, lastSample]
    rw [if_pos odd]
    refine ⟨_, rfl, ⟨(sameSize_set _ _ _ _).trans outSize, resSize⟩, ?_⟩
    intro row upTo
    rcases Nat.lt_succ_iff_lt_or_eq.1 upTo with earlier | rfl
    · rw [row_set_of_ne _ (Nat.ne_of_lt earlier)]
      exact rows row earlier
    · refine ⟨?_, fun _ => sample_set_same _ _ _ _⟩
      intro i inside
      have pair := pairs i (residualWidth ▸ inside)
      unfold Channel.row at pair ⊢
      rw [sample_set_of_ne _ (.inr (Nat.ne_of_lt inside))]
      exact pair
  · have notOdd : ¬ chin.w % 2 = 1 :=
      fun isOdd => odd (and_one_ne_zero.2 isOdd)
    simp only
    rw [if_neg odd]
    refine ⟨_, rfl, ⟨outSize, resSize⟩, ?_⟩
    intro row upTo
    rcases Nat.lt_succ_iff_lt_or_eq.1 upTo with earlier | rfl
    · exact rows row earlier
    · refine ⟨?_, fun isOdd => absurd isOdd notOdd⟩
      intro i inside
      exact pairs i (residualWidth ▸ inside)

/-- The row loop squeezes every row. -/
theorem squeezeRows_ok
    (small : ∀ y, y < chin.h → SmallLine (chin.row y) chin.w)
    (width : chout.w = (chin.w + 1) / 2)
    (height : chout.h = chin.h)
    (residualWidth : chout_residual.w = chin.w / 2) :
    ∃ next,
      squeezeRows chin chout chout_residual = .ok next ∧
        SameSizes chout chout_residual next ∧
        RowsSqueezed chin chin.h next := by
  rw [squeezeRows, height]
  refine
    foldlM_range_ok
      (fun y state =>
        SameSizes chout chout_residual state ∧ RowsSqueezed chin y state)
      chin.h
      ⟨⟨.refl _, .refl _⟩, fun row none => absurd none (Nat.not_lt_zero row)⟩
      ?_
  rintro y state inHeight ⟨sizes, rows⟩
  exact squeezeRow_ok (small y inHeight) width residualWidth sizes rows

/-- The pairs of the columns before a position are squeezed. -/
def ColumnsSqueezed
    (chin : Channel)
    (width y : Nat)
    (state : Channel × Channel) :
    Prop :=
  ∀ x,
    x < width →
    ∀ i,
      i < y →
      PairSqueezed (column chin x) chin.h i (state.1.sample i x)
        (state.2.sample i x)

/-- One row of pairs of columns is squeezed. -/
theorem squeezeColumns_row
    (small : ∀ x, x < chin.w → SmallLine (column chin x) chin.h)
    (width : chout.w = chin.w)
    (residualHeight : chout_residual.h = chin.h / 2)
    {y : Nat}
    (inHeight : y < chin.h / 2)
    (sizes : SameSizes chout chout_residual state)
    (columns : ColumnsSqueezed chin chin.w y state) :
    ∃ next,
      (List.range chout.w).foldlM
          (fun state x =>
            squeezeAt (column chin x) chin.h chout_residual.h y y x state)
          state = .ok next ∧
        SameSizes chout chout_residual next ∧
        ColumnsSqueezed chin chin.w (y + 1) next := by
  have loop :=
    @foldlM_range_ok (Channel × Channel)
      (fun state x =>
        squeezeAt (column chin x) chin.h chout_residual.h y y x state)
      (fun x state =>
        SameSizes chout chout_residual state ∧
          ColumnsSqueezed chin chin.w y state ∧
          ColumnsSqueezed chin x (y + 1) state)
      state chout.w
      ⟨sizes, columns, fun x none => absurd none (Nat.not_lt_zero x)⟩
      (by
        rintro x ⟨out, res⟩ inWidth ⟨⟨outSize, resSize⟩, columns, done⟩
        rw [width] at inWidth
        rw [residualHeight]
        obtain ⟨avg, residual, squeezed⟩ :=
          squeezePixel_ok (small x inWidth) inHeight
        refine ⟨(out.set y x avg, res.set y x residual), ?_, ⟨?_, ?_⟩, ?_, ?_⟩
        · rw [squeezeAt, squeezed]
          rfl
        · exact (sameSize_set _ _ _ _).trans outSize
        · exact (sameSize_set _ _ _ _).trans resSize
        · intro other inside i earlier
          rw [sample_set_of_ne _ (.inl (Nat.ne_of_lt earlier)),
            sample_set_of_ne _ (.inl (Nat.ne_of_lt earlier))]
          exact columns other inside i earlier
        · intro other upTo i inside
          rcases Nat.lt_succ_iff_lt_or_eq.1 upTo with earlier | rfl
          · rw [sample_set_of_ne _ (.inr (Nat.ne_of_lt earlier)),
              sample_set_of_ne _ (.inr (Nat.ne_of_lt earlier))]
            exact done other earlier i inside
          · rcases Nat.lt_succ_iff_lt_or_eq.1 inside with earlier | rfl
            · rw [sample_set_of_ne _ (.inl (Nat.ne_of_lt earlier)),
                sample_set_of_ne _ (.inl (Nat.ne_of_lt earlier))]
              exact columns other inWidth i earlier
            · rw [sample_set_same, sample_set_same]
              exact pairSqueezed_of_squeezePixel squeezed)
  obtain ⟨next, ran, sizes, _, done⟩ := loop
  rw [width] at done
  exact ⟨next, ran, sizes, done⟩

/-- The column loop squeezes every column. -/
theorem squeezeColumns_ok
    (small : ∀ x, x < chin.w → SmallLine (column chin x) chin.h)
    (width : chout.w = chin.w)
    (height : chout.h = (chin.h + 1) / 2)
    (residualHeight : chout_residual.h = chin.h / 2) :
    ∃ next,
      squeezeColumns chin chout chout_residual = .ok next ∧
        SameSizes chout chout_residual next ∧
        ∀ x,
          x < chin.w →
          LineSqueezed (column chin x) chin.h (column next.1 x)
            (column next.2 x) := by
  have loop :=
    @foldlM_range_ok (Channel × Channel)
      (fun state y =>
        (List.range chout.w).foldlM
          (fun state x =>
            squeezeAt (column chin x) chin.h chout_residual.h y y x state)
          state)
      (fun y state =>
        SameSizes chout chout_residual state ∧
          ColumnsSqueezed chin chin.w y state)
      (chout, chout_residual) chout_residual.h
      ⟨⟨.refl chout, .refl chout_residual⟩,
        fun x _ i none => absurd none (Nat.not_lt_zero i)⟩
      (fun y state inHeight ⟨sizes, columns⟩ =>
        squeezeColumns_row small width residualHeight
          (residualHeight ▸ inHeight) sizes columns)
  obtain ⟨⟨out, res⟩, ran, ⟨outSize, resSize⟩, columns⟩ := loop
  rw [residualHeight] at columns
  rw [squeezeColumns, ran, ok_bind]
  by_cases odd : chin.h &&& 1 ≠ 0
  · have isOdd := and_one_ne_zero.1 odd
    have lastPlace : chout.h - 1 = chin.h / 2 := by
      omega
    have lastSample : chin.h / 2 * 2 = chin.h - 1 := by
      omega
    simp only [lastPlace, lastSample]
    rw [if_pos odd]
    refine ⟨_, rfl, ⟨(Channel.sameSize_setRow _ _ _).trans outSize, resSize⟩,
      ?_⟩
    intro x inWidth
    refine ⟨?_, ?_⟩
    · intro i inside
      simp only [column, Channel.sample_setRow, Nat.ne_of_lt inside, false_and,
        if_false]
      exact columns x inWidth i inside
    · intro _
      have outWidth : x < out.w := by
        rw [outSize.w, width]
        exact inWidth
      simp only [column, Channel.sample_setRow, outWidth, and_self, if_true,
        Channel.row]
  · have notOdd : ¬ chin.h % 2 = 1 :=
      fun isOdd => odd (and_one_ne_zero.2 isOdd)
    simp only
    rw [if_neg odd]
    refine ⟨_, rfl, ⟨outSize, resSize⟩, ?_⟩
    intro x inWidth
    exact ⟨fun i inside => columns x inWidth i inside,
      fun isOdd => absurd isOdd notOdd⟩

end Forward

section Inverse

variable {chin chin_residual chout : Channel}
variable {sample : Nat → Nat → Int32}
variable {w h : Nat}

/-- The pair loop of a row restores it and leaves the other rows alone. -/
theorem unsqueezeRow_pairs
    {y : Nat}
    (small : SmallLine (sample y) w)
    (squeezed : LineSqueezed (sample y) w (chin.row y) (chin_residual.row y))
    (width : chin.w = (w + 1) / 2)
    (residualWidth : chin_residual.w = w / 2) :
    ∃ next,
      (List.range chin_residual.w).foldlM
          (fun (chout : Channel) x => do
            let (A, B) ←
              unsqueezePixel (chin.row y) (chin_residual.row y) (chout.row y)
                chin.w x
            return (chout.set y (x * 2) A).set y (x * 2 + 1) B)
          chout = .ok next ∧
        next.SameSize chout ∧
        (∀ row, row ≠ y → next.row row = chout.row row) ∧
        ∀ x, x < w / 2 * 2 → next.sample y x = sample y x := by
  have loop :=
    @foldlM_range_ok Channel
      (fun (chout : Channel) x => do
        let (A, B) ←
          unsqueezePixel (chin.row y) (chin_residual.row y) (chout.row y)
            chin.w x
        return (chout.set y (x * 2) A).set y (x * 2 + 1) B)
      (fun count next =>
        next.SameSize chout ∧
          (∀ row, row ≠ y → next.row row = chout.row row) ∧
          ∀ x, x < count * 2 → next.sample y x = sample y x)
      chout chin_residual.w
      ⟨.refl chout, fun row _ => rfl,
        fun x none => absurd none (by omega)⟩
      (by
        rintro i state inWidth ⟨size, others, done⟩
        rw [residualWidth] at inWidth
        have pair :=
          @unsqueezePixel_ok (sample y) (chin.row y) (chin_residual.row y)
            (state.row y) w i small squeezed inWidth
            (fun positive => done (i * 2 - 1) (by omega))
        refine ⟨(state.set y (i * 2) (sample y (i * 2))).set y (i * 2 + 1)
          (sample y (i * 2 + 1)), ?_, ?_, ?_, ?_⟩
        · simp only [width, pair, ok_bind, pure_eq_ok]
        · exact ((sameSize_set _ _ _ _).trans (sameSize_set _ _ _ _)).trans size
        · intro row other
          rw [row_set_of_ne _ other, row_set_of_ne _ other]
          exact others row other
        · intro x upTo
          by_cases second : x = i * 2 + 1
          · rw [second, sample_set_same]
          · rw [sample_set_of_ne _ (.inr second)]
            by_cases first : x = i * 2
            · rw [first, sample_set_same]
            · rw [sample_set_of_ne _ (.inr first)]
              exact done x (by omega))
  obtain ⟨next, ran, size, others, done⟩ := loop
  rw [residualWidth] at done
  exact ⟨next, ran, size, others, done⟩

/-- One row is restored. -/
theorem unsqueezeRow_ok
    {y : Nat}
    (small : SmallLine (sample y) w)
    (squeezed : LineSqueezed (sample y) w (chin.row y) (chin_residual.row y))
    (width : chin.w = (w + 1) / 2)
    (residualWidth : chin_residual.w = w / 2)
    (outWidth : chout.w = w) :
    ∃ next,
      unsqueezeRow chin chin_residual chout y = .ok next ∧
        next.SameSize chout ∧
        (∀ row, row ≠ y → next.row row = chout.row row) ∧
        ∀ x, x < w → next.sample y x = sample y x := by
  obtain ⟨next, ran, size, others, done⟩ :=
    @unsqueezeRow_pairs chin chin_residual chout sample w y small squeezed
      width residualWidth
  rw [unsqueezeRow, ran, ok_bind, size.w, outWidth]
  by_cases odd : w &&& 1 ≠ 0
  · have isOdd := and_one_ne_zero.1 odd
    have lastAverage : chin.w - 1 = w / 2 := by
      omega
    rw [if_pos odd, lastAverage]
    refine ⟨_, rfl, (sameSize_set _ _ _ _).trans size, ?_, ?_⟩
    · intro row other
      rw [row_set_of_ne _ other]
      exact others row other
    · intro x inWidth
      by_cases last : x = w - 1
      · rw [last, sample_set_same]
        exact squeezed.last isOdd
      · rw [sample_set_of_ne _ (.inr last)]
        exact done x (by omega)
  · have notOdd : ¬ w % 2 = 1 :=
      fun isOdd => odd (and_one_ne_zero.2 isOdd)
    rw [if_neg odd]
    exact ⟨next, rfl, size, others, fun x inWidth => done x (by omega)⟩

/-- The row loop of the inverse restores every row. -/
theorem unsqueezeRows_ok
    (small : ∀ y, y < h → SmallLine (sample y) w)
    (squeezed :
      ∀ y,
        y < h →
        LineSqueezed (sample y) w (chin.row y) (chin_residual.row y))
    (height : chin.h = h)
    (width : chin.w = (w + 1) / 2)
    (residualWidth : chin_residual.w = w / 2)
    (outWidth : chout.w = w) :
    ∃ next,
      unsqueezeRows chin chin_residual chout = .ok next ∧
        next.SameSize chout ∧
        ∀ y, y < h → ∀ x, x < w → next.sample y x = sample y x := by
  rw [unsqueezeRows, height]
  refine
    foldlM_range_ok
      (fun count (next : Channel) =>
        next.SameSize chout ∧
          ∀ y, y < count → ∀ x, x < w → next.sample y x = sample y x)
      h ⟨.refl chout, fun y none => absurd none (Nat.not_lt_zero y)⟩ ?_
  rintro y state inHeight ⟨size, done⟩
  obtain ⟨next, ran, nextSize, others, restored⟩ :=
    @unsqueezeRow_ok chin chin_residual state sample w y (small y inHeight)
      (squeezed y inHeight) width residualWidth (size.w.trans outWidth)
  refine ⟨next, ran, nextSize.trans size, ?_⟩
  intro row upTo x inWidth
  rcases Nat.lt_succ_iff_lt_or_eq.1 upTo with earlier | rfl
  · have same := congrFun (others row (Nat.ne_of_lt earlier)) x
    unfold Channel.row at same
    rw [same]
    exact done row earlier x inWidth
  · exact restored x inWidth

/-- One row of pairs is restored. -/
theorem unsqueezePairRow_ok
    {y : Nat}
    (inHeight : y < h / 2)
    (small : ∀ x, x < w → SmallLine (fun row => sample row x) h)
    (squeezed :
      ∀ x,
        x < w →
        LineSqueezed (fun row => sample row x) h (column chin x)
          (column chin_residual x))
    (width : chin.w = w)
    (height : chin.h = (h + 1) / 2)
    (before :
      ∀ x, x < w → ∀ row, row < y * 2 → chout.sample row x = sample row x) :
    ∃ next,
      unsqueezePairRow chin chin_residual chout y = .ok next ∧
        next.SameSize chout ∧
        ∀ x,
          x < w →
          ∀ row, row < (y + 1) * 2 → next.sample row x = sample row x := by
  rw [unsqueezePairRow, width]
  have loop :=
    @foldlM_range_ok Channel
      (fun (chout : Channel) x => do
        let (A, B) ←
          unsqueezePixel (column chin x) (column chin_residual x)
            (column chout x) chin.h y
        return (chout.set (y * 2) x A).set (y * 2 + 1) x B)
      (fun count next =>
        next.SameSize chout ∧
          (∀ x, x < w → ∀ row, row < y * 2 → next.sample row x = sample row x) ∧
          ∀ x,
            x < count →
            ∀ row, row < (y + 1) * 2 → next.sample row x = sample row x)
      chout w
      ⟨.refl chout, before, fun x none => absurd none (Nat.not_lt_zero x)⟩
      (by
        rintro x state inWidth ⟨size, before, done⟩
        have pair :=
          @unsqueezePixel_ok (fun row => sample row x) (column chin x)
            (column chin_residual x) (column state x) h y (small x inWidth)
            (squeezed x inWidth) inHeight
            (fun positive => before x inWidth (y * 2 - 1) (by omega))
        refine ⟨(state.set (y * 2) x (sample (y * 2) x)).set (y * 2 + 1) x
          (sample (y * 2 + 1) x), ?_, ?_, ?_, ?_⟩
        · simp only [height, pair, ok_bind, pure_eq_ok]
        · exact ((sameSize_set _ _ _ _).trans (sameSize_set _ _ _ _)).trans size
        · intro other inside row earlier
          rw [sample_set_of_ne _ (.inl (by omega)),
            sample_set_of_ne _ (.inl (by omega))]
          exact before other inside row earlier
        · intro other upTo row inPair
          rcases Nat.lt_succ_iff_lt_or_eq.1 upTo with earlier | rfl
          · rw [sample_set_of_ne _ (.inr (Nat.ne_of_lt earlier)),
              sample_set_of_ne _ (.inr (Nat.ne_of_lt earlier))]
            exact done other earlier row inPair
          · by_cases second : row = y * 2 + 1
            · rw [second, sample_set_same]
            · rw [sample_set_of_ne _ (.inl second)]
              by_cases first : row = y * 2
              · rw [first, sample_set_same]
              · rw [sample_set_of_ne _ (.inl first)]
                exact before other inWidth row (by omega))
  obtain ⟨next, ran, size, _, done⟩ := loop
  exact ⟨next, ran, size, done⟩

/-- The column loop of the inverse restores every column. -/
theorem unsqueezeColumns_ok
    (small : ∀ x, x < w → SmallLine (fun row => sample row x) h)
    (squeezed :
      ∀ x,
        x < w →
        LineSqueezed (fun row => sample row x) h (column chin x)
          (column chin_residual x))
    (width : chin.w = w)
    (height : chin.h = (h + 1) / 2)
    (residualHeight : chin_residual.h = h / 2)
    (outWidth : chout.w = w)
    (outHeight : chout.h = h) :
    ∃ next,
      unsqueezeColumns chin chin_residual chout = .ok next ∧
        next.SameSize chout ∧
        ∀ y, y < h → ∀ x, x < w → next.sample y x = sample y x := by
  have loop :=
    @foldlM_range_ok Channel (unsqueezePairRow chin chin_residual)
      (fun count next =>
        next.SameSize chout ∧
          ∀ x,
            x < w → ∀ row, row < count * 2 → next.sample row x = sample row x)
      chout chin_residual.h
      ⟨.refl chout, fun x _ row none => absurd none (by omega)⟩
      (by
        rintro y state inHeight ⟨size, before⟩
        rw [residualHeight] at inHeight
        obtain ⟨next, ran, nextSize, done⟩ :=
          @unsqueezePairRow_ok chin chin_residual state sample w h y inHeight
            small squeezed width height before
        exact ⟨next, ran, nextSize.trans size, done⟩)
  obtain ⟨next, ran, size, done⟩ := loop
  rw [residualHeight] at done
  rw [unsqueezeColumns, ran, ok_bind, size.h, outHeight]
  by_cases odd : h &&& 1 ≠ 0
  · have isOdd := and_one_ne_zero.1 odd
    have lastAverage : chin.h - 1 = h / 2 := by
      omega
    simp only [lastAverage]
    rw [if_pos odd]
    refine ⟨_, rfl, (Channel.sameSize_setRow _ _ _).trans size, ?_⟩
    intro y inHeight x inWidth
    rw [Channel.sample_setRow, size.w, outWidth]
    by_cases last : y = h / 2 * 2
    · rw [if_pos ⟨last, inWidth⟩]
      refine ((squeezed x inWidth).last isOdd).trans ?_
      congr 1
      omega
    · rw [if_neg (by omega)]
      exact done x inWidth y (by omega)
  · have notOdd : ¬ h % 2 = 1 :=
      fun isOdd => odd (and_one_ne_zero.2 isOdd)
    rw [if_neg odd]
    exact ⟨next, rfl, size,
      fun y inHeight x inWidth => done x inWidth y (by omega)⟩

end Inverse

end Jxlz.Modular
