import Jxlz.Lib.Agree

/-!
# What is emitted is taken back

A writer adds items to those that it has emitted, a reader takes items off those that are
left to it.  The reader replays the writer if it succeeds on what the writer has added, and
takes just that.  The rules follow the shape of a program: sequencing, and loops over a
range or over the rows and columns of a rectangle.
-/

variable {ε α β τ : Type}
variable {emitted : α → List τ} {left : β → List τ → Prop}

/-- Whatever the writer emits, the reader takes it, from related states to related ones. -/
def Replays
    (emitted : α → List τ)
    (left : β → List τ → Prop)
    (before after : α → β → Prop)
    (write : α → Except ε α)
    (read : β → Except ε β) :
    Prop :=
  ∀ writer writer',
    write writer = .ok writer' →
    ∃ items,
      emitted writer' = emitted writer ++ items ∧
        ∀ reader rest,
          before writer reader →
          left reader (items ++ rest) →
          ∃ reader', read reader = .ok reader' ∧ after writer' reader' ∧ left reader' rest

namespace Replays

variable {before middle after weak : α → β → Prop}
variable {write write' : α → Except ε α} {read read' : β → Except ε β}

/-- A weaker relation of the states behind. -/
theorem mono
    (replays : Replays emitted left before after write read)
    (weaken : ∀ writer reader, after writer reader → weak writer reader) :
    Replays emitted left before weak write read := by
  intro writer writer' wrote
  obtain ⟨items, isEmitted, takes⟩ := replays writer writer' wrote
  refine ⟨items, isEmitted, fun reader rest related isLeft => ?_⟩
  obtain ⟨reader', ran, related', isLeft'⟩ := takes reader rest related isLeft
  exact ⟨reader', ran, weaken _ _ related', isLeft'⟩

/-- One step after the other. -/
theorem bind
    (first : Replays emitted left before middle write read)
    (second : Replays emitted left middle after write' read') :
    Replays emitted left before after (fun writer => write writer >>= write')
      (fun reader => read reader >>= read') := by
  intro writer writer'' wrote
  dsimp only at wrote ⊢
  cases ran : write writer with
  | error fault =>
      rw [ran] at wrote
      cases wrote
  | ok writer' =>
      rw [ran] at wrote
      obtain ⟨items, isEmitted, takes⟩ := first writer writer' ran
      obtain ⟨items', isEmitted', takes'⟩ := second writer' writer'' wrote
      refine ⟨items ++ items', ?_, fun reader rest related isLeft => ?_⟩
      · rw [isEmitted', isEmitted, List.append_assoc]
      · rw [List.append_assoc] at isLeft
        obtain ⟨reader', took, related', isLeft'⟩ := takes reader _ related isLeft
        obtain ⟨reader'', took', related'', isLeft''⟩ :=
          takes' reader' rest related' isLeft'
        exact ⟨reader'', by rw [took]; exact took', related'', isLeft''⟩

/-- A loop over a range, whose relation is that of the steps done. -/
theorem range
    {related : Nat → α → β → Prop}
    {count : Nat}
    {write : α → Nat → Except ε α}
    {read : β → Nat → Except ε β}
    (step :
      ∀ i,
        i < count →
        Replays emitted left (related i) (related (i + 1)) (fun writer => write writer i)
          (fun reader => read reader i)) :
    Replays emitted left (related 0) (related count)
      (fun writer => (List.range count).foldlM write writer)
      (fun reader => (List.range count).foldlM read reader) := by
  induction count with
  | zero =>
      intro writer writer' wrote
      cases wrote
      exact ⟨[], (List.append_nil _).symm, fun reader rest related isLeft =>
        ⟨reader, rfl, related, isLeft⟩⟩
  | succ count inductionHypothesis =>
      have before :=
        inductionHypothesis fun i inside => step i (Nat.lt_succ_of_lt inside)
      have whole := before.bind (step count (Nat.lt_succ_self count))
      simpa only [List.range_succ, List.foldlM_append, List.foldlM_cons, List.foldlM_nil,
        bind_pure] using whole

/-- A loop over rows and columns, with a step before every row. -/
theorem pixels
    {atRow : Nat → α → β → Prop}
    {atPixel : Nat → Nat → α → β → Prop}
    {height width : Nat}
    {writeStart : Nat → α → Except ε α}
    {readStart : Nat → β → Except ε β}
    {writePixel : Nat → Nat → α → Except ε α}
    {readPixel : Nat → Nat → β → Except ε β}
    (startRow :
      ∀ y,
        y < height →
        Replays emitted left (atRow y) (atPixel y 0) (writeStart y) (readStart y))
    (pixel :
      ∀ y x,
        y < height →
        x < width →
        Replays emitted left (atPixel y x) (atPixel y (x + 1)) (writePixel y x)
          (readPixel y x))
    (endRow :
      ∀ y writer reader, atPixel y width writer reader → atRow (y + 1) writer reader) :
    Replays emitted left (atRow 0) (atRow height)
      (forPixels height width writeStart writePixel)
      (forPixels height width readStart readPixel) :=
  range fun y inHeight =>
    (startRow y inHeight).bind
      ((range fun x inWidth => pixel y x inHeight inWidth).mono (endRow y))

end Replays
