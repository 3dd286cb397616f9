import Jxlz.Base.Returns
import Jxlz.Modular.WeightedAverage

namespace Jxlz.Weighted

/-!
# The weighted predictor cannot overflow

The predictions are made of samples and of errors of 32 bits, so they stay
within `2 ^ 40` whatever the header says, and so does their average.  Every call
on the buffers then does what it does to the state of integers.
-/

/-- A product with a coefficient of the header. -/
theorem abs_mul_coefficient
    {value bound : Int}
    (small : |value| ≤ bound)
    (coefficient : Fin 32) :
    |value * (coefficient.val : Int)| ≤ bound * 31 := by
  have coefficientSmall : (coefficient.val : Int) ≤ 31 := by
    have inside := coefficient.isLt
    omega
  rw [abs_mul, Nat.abs_cast]
  exact mul_le_mul small coefficientSmall (Int.natCast_nonneg _)
    ((abs_nonneg value).trans small)

/-! ## The predictions -/

/-- A sample of 32 bits keeps all its bits when its fraction is added. -/
theorem addBits_sample
    (sample : Int32) :
    Buffers.addBits sample.toInt = State.addBits sample.toInt ∧
      |State.addBits sample.toInt| ≤ 2 ^ 34 := by
  have large := Int32.le_toInt sample
  have small := Int32.toInt_lt sample
  have wide :
      -2 ^ 34 ≤ sample.toInt * 2 ^ kPredExtraBits ∧
        sample.toInt * 2 ^ kPredExtraBits < 2 ^ 34 := by
    rw [show kPredExtraBits = 3 from rfl]
    omega
  constructor
  · exact Int.bmod_eq_of_le (by omega) (by omega)
  · exact abs_le.2 ⟨wide.1, wide.2.le⟩

theorem abs_error
    (error : Int32) :
    |error.toInt| ≤ 2 ^ 31 :=
  abs_le.2 ⟨Int32.le_toInt error, (Int32.toInt_lt error).le⟩

theorem lessShare_ok
    {sample errors : Int}
    (sampleSmall : |sample| ≤ 2 ^ 34)
    (errorsSmall : |errors| ≤ 3 * 2 ^ 31)
    (coefficient : Fin 32) :
    Buffers.lessShare sample errors coefficient =
        .ok (sample - (errors * coefficient.val) >>> (5 : Nat)) ∧
      |sample - (errors * coefficient.val) >>> (5 : Nat)| ≤ 2 ^ 40 := by
  have product := abs_mul_coefficient errorsSmall coefficient
  generalize isProduct : errors * (coefficient.val : Int) = share at product
  have result : |sample - share >>> (5 : Nat)| ≤ 2 ^ 40 := by
    rw [Int.shiftRight_eq_div_pow]
    rw [abs_le] at *
    norm_num at *
    omega
  refine ⟨?_, result⟩
  rw [Buffers.lessShare, isProduct, fitI64_ok (product.trans (by norm_num)), ok_bind]
  exact fitI64_ok (result.trans (by norm_num))

theorem mixedPrediction_ok
    {n w nw nn teN teNW teNE : Int}
    (header : Header)
    (nSmall : |n| ≤ 2 ^ 34)
    (wSmall : |w| ≤ 2 ^ 34)
    (nwSmall : |nw| ≤ 2 ^ 34)
    (nnSmall : |nn| ≤ 2 ^ 34)
    (teNSmall : |teN| ≤ 2 ^ 31)
    (teNWSmall : |teNW| ≤ 2 ^ 31)
    (teNESmall : |teNE| ≤ 2 ^ 31) :
    Buffers.mixedPrediction header n w nw nn teN teNW teNE =
        .ok (n -
          (teNW * header.p3Ca.val + teN * header.p3Cb.val +
            teNE * header.p3Cc.val + (nn - n) * header.p3Cd.val +
            (nw - w) * header.p3Ce.val) >>> (5 : Nat)) ∧
      |n -
          (teNW * header.p3Ca.val + teN * header.p3Cb.val +
            teNE * header.p3Cc.val + (nn - n) * header.p3Cd.val +
            (nw - w) * header.p3Ce.val) >>> (5 : Nat)| ≤ 2 ^ 40 := by
  have above : |nn - n| ≤ 2 ^ 35 := by
    rw [abs_le] at *
    omega
  have beside : |nw - w| ≤ 2 ^ 35 := by
    rw [abs_le] at *
    omega
  have termNW := abs_mul_coefficient teNWSmall header.p3Ca
  have termN := abs_mul_coefficient teNSmall header.p3Cb
  have termNE := abs_mul_coefficient teNESmall header.p3Cc
  have termAbove := abs_mul_coefficient above header.p3Cd
  have termBeside := abs_mul_coefficient beside header.p3Ce
  rw [Buffers.mixedPrediction, fitI64_ok (above.trans (by norm_num)),
    fitI64_ok (beside.trans (by norm_num))]
  simp only [ok_bind]
  generalize teNW * (header.p3Ca.val : Int) = first at *
  generalize teN * (header.p3Cb.val : Int) = second at *
  generalize teNE * (header.p3Cc.val : Int) = third at *
  generalize (nn - n) * (header.p3Cd.val : Int) = fourth at *
  generalize (nw - w) * (header.p3Ce.val : Int) = fifth at *
  have sum2 : |first + second| ≤ 2 ^ 41 := by
    rw [abs_le] at *
    omega
  have sum3 : |first + second + third| ≤ 2 ^ 41 := by
    rw [abs_le] at *
    omega
  have sum4 : |first + second + third + fourth| ≤ 2 ^ 42 := by
    rw [abs_le] at *
    omega
  have sum5 : |first + second + third + fourth + fifth| ≤ 2 ^ 42 := by
    rw [abs_le] at *
    omega
  have result :
      |n - (first + second + third + fourth + fifth) >>> (5 : Nat)| ≤ 2 ^ 40 := by
    rw [Int.shiftRight_eq_div_pow]
    rw [abs_le] at *
    norm_num at *
    omega
  refine ⟨?_, result⟩
  rw [fitI64_ok (termNW.trans (by norm_num)), ok_bind,
    fitI64_ok (termN.trans (by norm_num)), ok_bind,
    addI64_small (sum2.trans (by norm_num)), ok_bind,
    fitI64_ok (termNE.trans (by norm_num)), ok_bind,
    addI64_small (sum3.trans (by norm_num)), ok_bind,
    fitI64_ok (termAbove.trans (by norm_num)), ok_bind,
    addI64_small (sum4.trans (by norm_num)), ok_bind,
    fitI64_ok (termBeside.trans (by norm_num)), ok_bind,
    addI64_small (sum5.trans (by norm_num)), ok_bind]
  exact fitI64_ok (result.trans (by norm_num))

/-- The four predictions are those of the integers, and within `2 ^ 40`. -/
theorem predictions_ok
    {n w ne nw nn teW teN teNW teNE : Int}
    (header : Header)
    (nSmall : |n| ≤ 2 ^ 34)
    (wSmall : |w| ≤ 2 ^ 34)
    (neSmall : |ne| ≤ 2 ^ 34)
    (nwSmall : |nw| ≤ 2 ^ 34)
    (nnSmall : |nn| ≤ 2 ^ 34)
    (teWSmall : |teW| ≤ 2 ^ 31)
    (teNSmall : |teN| ≤ 2 ^ 31)
    (teNWSmall : |teNW| ≤ 2 ^ 31)
    (teNESmall : |teNE| ≤ 2 ^ 31) :
    ∃ prediction : Fin 4 → Int,
      Buffers.predictions header n w ne nw nn teW teN teNW teNE =
          .ok prediction ∧
        (∀ i, |prediction i| ≤ 2 ^ 40) ∧
        prediction = ![
          w + ne - n,
          n - ((teN + teW + teNE) * header.p1C.val) >>> (5 : Nat),
          w - ((teN + teW + teNW) * header.p2C.val) >>> (5 : Nat),
          n -
            (teNW * header.p3Ca.val + teN * header.p3Cb.val +
              teNE * header.p3Cc.val + (nn - n) * header.p3Cd.val +
              (nw - w) * header.p3Ce.val) >>> (5 : Nat)] := by
  have sumWN : |teN + teW| ≤ 2 ^ 32 := by
    rw [abs_le] at *
    omega
  have right : |teN + teW + teNE| ≤ 3 * 2 ^ 31 := by
    rw [abs_le] at *
    omega
  have left : |teN + teW + teNW| ≤ 3 * 2 ^ 31 := by
    rw [abs_le] at *
    omega
  have across : |w + ne| ≤ 2 ^ 35 := by
    rw [abs_le] at *
    omega
  have first : |w + ne - n| ≤ 2 ^ 40 := by
    rw [abs_le] at *
    omega
  obtain ⟨secondOk, second⟩ := lessShare_ok nSmall right header.p1C
  obtain ⟨thirdOk, third⟩ := lessShare_ok wSmall left header.p2C
  obtain ⟨fourthOk, fourth⟩ :=
    mixedPrediction_ok header nSmall wSmall nwSmall nnSmall teNSmall teNWSmall
      teNESmall
  refine ⟨_, ?_, ?_, rfl⟩
  · rw [Buffers.predictions, addI64_small (sumWN.trans (by norm_num)), ok_bind,
      addI64_small (across.trans (by norm_num)), ok_bind,
      fitI64_ok (first.trans (by norm_num)), ok_bind,
      addI64_small (right.trans (by norm_num)), ok_bind, secondOk, ok_bind,
      addI64_small (left.trans (by norm_num)), ok_bind, thirdOk, ok_bind,
      fourthOk, ok_bind]
    rfl
  · intro i
    fin_cases i
    · exact first
    · exact second
    · exact third
    · exact fourth

theorem absW_ok
    {x : Int}
    (small : |x| ≤ 2 ^ 62) :
    Buffers.absW x = .ok |x| := by
  rw [Buffers.absW]
  split
  next negative =>
    rw [fitI64_ok (by rwa [abs_neg]), abs_of_neg negative]
  next positive =>
    rw [abs_of_nonneg (not_lt.1 positive), pure_eq_ok]

/-- The wider of two errors is one of them. -/
theorem widerError_ok
    (p te : Int32) :
    ∃ wider : Int32,
      Buffers.widerError p.toInt te.toInt = .ok wider.toInt ∧
        State.widerError p.toInt te.toInt = wider.toInt := by
  rw [Buffers.widerError, absW_ok ((abs_error te).trans (by norm_num)), ok_bind,
    absW_ok ((abs_error p).trans (by norm_num)), ok_bind, State.widerError]
  by_cases wide : |p.toInt| < |te.toInt|
  · rw [if_pos wide]
    exact ⟨te, rfl, rfl⟩
  · rw [if_neg wide]
    exact ⟨p, rfl, rfl⟩

theorem widestError_ok
    (errW errN errNW errNE : Int32) :
    Buffers.widestError errW.toInt errN.toInt errNW.toInt errNE.toInt =
      .ok (Int32.ofInt
        (State.widerError
          (State.widerError (State.widerError errW.toInt errN.toInt) errNW.toInt)
          errNE.toInt)) := by
  obtain ⟨first, firstOk, isFirst⟩ := widerError_ok errW errN
  obtain ⟨second, secondOk, isSecond⟩ := widerError_ok first errNW
  obtain ⟨third, thirdOk, isThird⟩ := widerError_ok second errNE
  rw [Buffers.widestError, firstOk, ok_bind, secondOk, ok_bind, thirdOk, ok_bind,
    toI32_toInt, isFirst, isSecond, isThird, Int32.ofInt_toInt]

/-! ## Buffers -/

namespace Buffers

variable {self : Buffers} {xsize : Nat}

/-- The state of integers and endless arrays that the buffers stand for. -/
def toState
    (self : Buffers) :
    State where
  header := self.header
  prediction := self.prediction
  pred := self.pred
  wpProp := self.wpProp
  predErrors := fun i place => (self.predErrors i).getD place 0
  errors := fun place => self.errors.getD place 0

/-- What holds between the calls in a channel of the given width. -/
structure Sound
    (xsize : Nat)
    (buffers : Buffers) :
    Prop where
  errors : buffers.errors.length = (xsize + 2) * 2
  predErrors : ∀ i, (buffers.predErrors i).length = (xsize + 2) * 2
  prediction : ∀ i, |buffers.prediction i| ≤ 2 ^ 40
  pred : |buffers.pred| ≤ 2 ^ 41
  addressed : (xsize + 2) * 2 < 2 ^ 62

theorem rows_ok
    (addressed : (xsize + 2) * 2 < 2 ^ 62)
    (y : Nat) :
    rows y xsize =
      .ok (if y % 2 = 1 then 0 else xsize + 2,
        if y % 2 = 1 then xsize + 2 else 0) := by
  unfold rows
  by_cases odd : y % 2 = 1
  · simp only [if_pos odd]
    rw [addU_ok (by omega), ok_bind, pure_eq_ok]
  · simp only [if_neg odd]
    rw [addU_ok (by omega), ok_bind, pure_eq_ok]

theorem positions_ok
    {x xsize prevRow : Nat}
    (addressed : (xsize + 2) * 2 < 2 ^ 62)
    (inside : x < xsize)
    (row : prevRow ≤ xsize + 2) :
    positions prevRow x xsize =
      .ok (prevRow + x,
        if x < xsize - 1 then prevRow + x + 1 else prevRow + x,
        if 0 < x then prevRow + x - 1 else prevRow + x) := by
  unfold positions
  rw [addU_ok (by omega), ok_bind, subU_ok (by omega), ok_bind]
  have right :
      (if x < xsize - 1 then addU 64 (prevRow + x) 1 else pure (prevRow + x)) =
        .ok (if x < xsize - 1 then prevRow + x + 1 else prevRow + x) := by
    split
    · exact addU_ok (by omega)
    · rfl
  have left :
      (if 0 < x then subU (prevRow + x) 1 else pure (prevRow + x)) =
        .ok (if 0 < x then prevRow + x - 1 else prevRow + x) := by
    split
    · exact subU_ok (by omega)
    · rfl
  rw [right, ok_bind, left, ok_bind, pure_eq_ok]

theorem weight_ok
    {xsize posN posNE posNW : Nat}
    (sound : Sound xsize self)
    (north : posN < (xsize + 2) * 2)
    (northEast : posNE < (xsize + 2) * 2)
    (northWest : posNW < (xsize + 2) * 2)
    (i : Fin 4) :
    self.weight posN posNE posNW i =
      .ok (State.errorWeight
        (self.toState.predErrors i posN + self.toState.predErrors i posNE +
          self.toState.predErrors i posNW).toNat
        (self.toState.header.w i)) := by
  have entries := sound.predErrors i
  unfold weight
  rw [index_getD (by omega) 0, ok_bind, index_getD (by omega) 0, ok_bind,
    index_getD (by omega) 0, ok_bind]
  exact errorWeight_ok (UInt32.toNat_lt _) (self.header.w i).isLt

theorem leftError_ok
    {x xsize curRow : Nat}
    (sound : Sound xsize self)
    (inside : x < xsize)
    (row : curRow ≤ xsize + 2) :
    self.leftError curRow x =
      .ok (if x = 0 then 0 else self.toState.errors (curRow + x - 1)) := by
  have entries := sound.errors
  have addressed := sound.addressed
  unfold leftError
  by_cases first : x = 0
  · rw [if_pos first, if_pos first, pure_eq_ok]
  · rw [if_neg first, if_neg first, addU_ok (by omega), ok_bind,
      subU_ok (by omega), ok_bind, index_getD (by omega) 0]
    rfl

theorem eq_of_four
    {α : Type}
    (values : Fin 4 → α) :
    ![values 0, values 1, values 2, values 3] = values := by
  funext i
  fin_cases i <;> rfl

/-- A prediction on the buffers is the one of the integers. -/
theorem predictImpl_ok
    {x xsize : Nat}
    (sound : Sound xsize self)
    (inside : x < xsize)
    (trackWPProp : Bool)
    (y : Nat)
    (nIn wIn neIn nwIn nnIn : Int32) :
    ∃ after value,
      self.predictImpl trackWPProp x y xsize nIn.toInt wIn.toInt neIn.toInt
            nwIn.toInt nnIn.toInt =
          .ok (after, value) ∧
        Sound xsize after ∧
        self.toState.predictImpl trackWPProp x y xsize nIn.toInt wIn.toInt
            neIn.toInt nwIn.toInt nnIn.toInt =
          (after.toState, value) := by
  have entries := sound.errors
  have addressed := sound.addressed
  obtain ⟨isN, nSmall⟩ := addBits_sample nIn
  obtain ⟨isW, wSmall⟩ := addBits_sample wIn
  obtain ⟨isNe, neSmall⟩ := addBits_sample neIn
  obtain ⟨isNw, nwSmall⟩ := addBits_sample nwIn
  obtain ⟨isNn, nnSmall⟩ := addBits_sample nnIn
  unfold predictImpl State.predictImpl
  rw [rows_ok addressed, ok_bind]
  dsimp only
  rw [isN, isW, isNe, isNw, isNn]
  generalize State.addBits nIn.toInt = n at *
  generalize State.addBits wIn.toInt = w at *
  generalize State.addBits neIn.toInt = ne at *
  generalize State.addBits nwIn.toInt = nw at *
  generalize State.addBits nnIn.toInt = nn at *
  generalize isCur : (if y % 2 = 1 then 0 else xsize + 2) = curRow
  generalize isPrev : (if y % 2 = 1 then xsize + 2 else 0) = prevRow
  have curSmall : curRow ≤ xsize + 2 := by
    split at isCur <;> omega
  have prevSmall : prevRow ≤ xsize + 2 := by
    split at isPrev <;> omega
  rw [positions_ok addressed inside prevSmall, ok_bind]
  dsimp only
  generalize isNE :
    (if x < xsize - 1 then prevRow + x + 1 else prevRow + x) = posNE
  generalize isNW : (if 0 < x then prevRow + x - 1 else prevRow + x) = posNW
  have northEast : posNE < (xsize + 2) * 2 := by
    split at isNE <;> omega
  have northWest : posNW < (xsize + 2) * 2 := by
    split at isNW <;> omega
  have north : prevRow + x < (xsize + 2) * 2 := by
    omega
  rw [weight_ok sound north northEast northWest, ok_bind,
    weight_ok sound north northEast northWest, ok_bind,
    weight_ok sound north northEast northWest, ok_bind,
    weight_ok sound north northEast northWest, ok_bind,
    leftError_ok sound inside curSmall, ok_bind,
    index_getD (by omega) 0, ok_bind, index_getD (by omega) 0, ok_bind,
    index_getD (by omega) 0, ok_bind]
  have isError : ∀ place, self.errors.getD place 0 = self.toState.errors place :=
    fun _ => rfl
  have isHeader : self.header = self.toState.header :=
    rfl
  have isProp : self.wpProp = self.toState.wpProp :=
    rfl
  rw [isError, isError, isError, isHeader, isProp,
    eq_of_four fun i =>
      State.errorWeight
        (self.toState.predErrors i (prevRow + x) +
          self.toState.predErrors i posNE + self.toState.predErrors i posNW).toNat
        (self.toState.header.w i)]
  generalize isWeights :
    (fun i =>
      State.errorWeight
        (self.toState.predErrors i (prevRow + x) +
          self.toState.predErrors i posNE + self.toState.predErrors i posNW).toNat
        (self.toState.header.w i)) = weights
  have weightRange : ∀ i, 4 ≤ weights i ∧ weights i < 2 ^ 28 := by
    intro i
    rw [← isWeights]
    exact errorWeight_range (self.toState.header.w i).isLt
  generalize
    (if x = 0 then 0 else self.toState.errors (curRow + x - 1)) = errW at *
  generalize self.toState.errors (prevRow + x) = errN at *
  generalize self.toState.errors posNW = errNW at *
  generalize self.toState.errors posNE = errNE at *
  have tracked :
      (if trackWPProp then
          widestError errW.toInt errN.toInt errNW.toInt errNE.toInt
        else
          pure self.toState.wpProp) =
        .ok (if trackWPProp then
            Int32.ofInt
              (State.widerError
                (State.widerError (State.widerError errW.toInt errN.toInt)
                  errNW.toInt)
                errNE.toInt)
          else
            self.toState.wpProp) := by
    cases trackWPProp with
    | true => exact widestError_ok errW errN errNW errNE
    | false => rfl
  obtain ⟨prediction, predicted, predictionSmall, isPrediction⟩ :=
    predictions_ok self.toState.header nSmall wSmall neSmall nwSmall nnSmall
      (abs_error errW) (abs_error errN) (abs_error errNW) (abs_error errNE)
  have averageSmall := weightedAverage_bound predictionSmall weights
  rw [tracked, ok_bind, predicted, ok_bind,
    weightedAverage_ok predictionSmall (fun i => (weightRange i).1)
      (fun i => (weightRange i).2),
    ok_bind, ← isPrediction]
  generalize State.weightedAverage prediction weights = average at *
  generalize isPred :
    (if 0 < ((errN ^^^ errW) ||| (errN ^^^ errNW)) then average
      else max (min w (min ne n)) (min (max w (max ne n)) average)) = pred
  have predSmall : |pred| ≤ 2 ^ 41 := by
    rw [abs_le] at *
    split at isPred <;> omega
  have rounded : |pred + kPredictionRound| ≤ 2 ^ 62 := by
    rw [show kPredictionRound = 3 from rfl]
    rw [abs_le] at *
    omega
  rw [addI64_small rounded, ok_bind]
  exact ⟨_, _, rfl, {
    errors := sound.errors
    predErrors := sound.predErrors
    prediction := predictionSmall
    pred := predSmall
    addressed := addressed }, rfl⟩

/-- Storing in a buffer is an update of the endless array. -/
theorem getD_store
    {α : Type}
    {items : List α}
    {position : Nat}
    {default : α}
    (inside : position < items.length)
    (item : α) :
    (fun place => (items.set position item).getD place default) =
      Function.update (fun place => items.getD place default) position item := by
  funext place
  rw [getD_set inside, Function.update_apply]

theorem updatePredErrors_ok
    {x xsize curRow prevRow : Nat}
    {val : Int}
    (sound : Sound xsize self)
    (inside : x < xsize)
    (cur : curRow ≤ xsize + 2)
    (prev : prevRow ≤ xsize + 2)
    (valSmall : |val| ≤ 2 ^ 34)
    (i : Fin 4) :
    ∃ after,
      self.updatePredErrors val curRow prevRow x i = .ok after ∧
        after.length = (xsize + 2) * 2 ∧
        (fun place => after.getD place 0) =
          (let err :=
            UInt32.ofInt
              ((|self.toState.prediction i - val| + kPredictionRound) >>>
                kPredExtraBits)
          let written :=
            Function.update (self.toState.predErrors i) (curRow + x) err
          Function.update written (prevRow + x + 1)
            (written (prevRow + x + 1) + err)) := by
  have entries := sound.predErrors i
  have addressed := sound.addressed
  have predictionSmall := sound.prediction i
  have difference : |self.prediction i - val| ≤ 2 ^ 41 := by
    rw [abs_le] at *
    omega
  have nonneg := abs_nonneg (self.prediction i - val)
  have rounded : |(|self.prediction i - val| + kPredictionRound)| ≤ 2 ^ 62 := by
    rw [show kPredictionRound = 3 from rfl, abs_of_nonneg (by omega)]
    omega
  have shifted :
      0 ≤ (|self.prediction i - val| + kPredictionRound) >>> kPredExtraBits := by
    rw [show kPredictionRound = 3 from rfl, Int.shiftRight_eq_div_pow]
    exact Int.ediv_nonneg (by omega) (by norm_num)
  unfold updatePredErrors
  rw [fitI64_ok (difference.trans (by norm_num)), ok_bind,
    absW_ok (difference.trans (by norm_num)), ok_bind, addI64_small rounded, ok_bind]
  dsimp only
  rw [require_ok shifted, ok_bind, addU_ok (by omega), ok_bind,
    store_ok (by omega), ok_bind, addU_ok (by omega), ok_bind,
    addU_ok (by omega), ok_bind,
    index_getD (by rw [List.length_set]; omega) 0, ok_bind,
    store_ok (by rw [List.length_set]; omega)]
  refine ⟨_, rfl, by rw [List.length_set, List.length_set, entries], ?_⟩
  rw [getD_store (by rw [List.length_set]; omega), getD_store (by omega),
    getD_set (by omega),
    ← Function.update_apply (fun place => (self.predErrors i).getD place 0)]
  rfl

/-- An update on the buffers is the one of the endless arrays. -/
theorem updateErrors_ok
    {x xsize : Nat}
    (sound : Sound xsize self)
    (inside : x < xsize)
    (y : Nat)
    (valIn : Int32) :
    ∃ after,
      self.updateErrors valIn.toInt x y xsize = .ok after ∧
        Sound xsize after ∧
        self.toState.updateErrors valIn.toInt x y xsize = after.toState := by
  have entries := sound.errors
  have addressed := sound.addressed
  have predSmall := sound.pred
  obtain ⟨isVal, valSmall⟩ := addBits_sample valIn
  unfold updateErrors State.updateErrors
  rw [rows_ok addressed, ok_bind]
  dsimp only
  rw [isVal]
  generalize State.addBits valIn.toInt = val at *
  generalize isCur : (if y % 2 = 1 then 0 else xsize + 2) = curRow
  generalize isPrev : (if y % 2 = 1 then xsize + 2 else 0) = prevRow
  have cur : curRow ≤ xsize + 2 := by
    split at isCur <;> omega
  have prev : prevRow ≤ xsize + 2 := by
    split at isPrev <;> omega
  have difference : |self.pred - val| ≤ 2 ^ 62 := by
    rw [abs_le] at *
    omega
  choose errors stored length isErrors using
    updatePredErrors_ok sound inside cur prev valSmall
  rw [fitI64_ok difference, ok_bind, addU_ok (by omega), ok_bind,
    store_ok (by omega), ok_bind, stored, ok_bind, stored, ok_bind, stored, ok_bind,
    stored, ok_bind, eq_of_four errors]
  refine ⟨_, rfl, {
    errors := by
      rw [← entries]
      exact List.length_set
    predErrors := length
    prediction := sound.prediction
    pred := predSmall
    addressed := addressed }, ?_⟩
  unfold toState
  dsimp only
  rw [getD_store (by omega)]
  congr 1
  funext i
  exact (isErrors i).symm

end Buffers

/-- A call succeeds, and does to the buffers what it does to the state. -/
theorem Call.run_ok
    {self : Buffers}
    {xsize : Nat}
    (sound : Buffers.Sound xsize self)
    (call : Call)
    (inside : call.x < xsize) :
    ∃ after,
      call.run xsize self = .ok after ∧
        Buffers.Sound xsize after ∧
        after.toState = call.apply xsize self.toState := by
  cases call with
  | predict trackWPProp x y n w ne nw nn =>
      obtain ⟨after, value, predicted, sound', same⟩ :=
        Buffers.predictImpl_ok sound inside trackWPProp y n w ne nw nn
      dsimp only [Call.x] at predicted same
      refine ⟨after, ?_, sound', ?_⟩
      · rw [run, predicted, ok_bind]
        rfl
      · rw [apply, same]
  | updateErrors val x y =>
      obtain ⟨after, updated, sound', same⟩ :=
        Buffers.updateErrors_ok sound inside y val
      exact ⟨after, updated, sound', same.symm⟩

/-- All calls succeed, in whatever order they come. -/
theorem Call.runs_ok
    {self : Buffers}
    {xsize : Nat}
    (sound : Buffers.Sound xsize self)
    {calls : List Call}
    (inside : ∀ call ∈ calls, call.x < xsize) :
    ∃ after,
      calls.foldlM (Call.run xsize) self = .ok after ∧
        Buffers.Sound xsize after ∧
        after.toState =
          calls.foldl (fun state call => call.apply xsize state) self.toState := by
  induction calls generalizing self with
  | nil =>
      exact ⟨self, rfl, sound, rfl⟩
  | cons call calls inductionHypothesis =>
      obtain ⟨next, ran, sound', isNext⟩ :=
        call.run_ok sound (inside call List.mem_cons_self)
      obtain ⟨after, others, sound'', isAfter⟩ :=
        inductionHypothesis sound'
          (fun other member => inside other (List.mem_cons_of_mem call member))
      refine ⟨after, ?_, sound'', ?_⟩
      · rw [List.foldlM_cons, ran, ok_bind, others]
      · rw [List.foldl_cons, ← isNext, isAfter]

/-! ## Headers and fresh buffers -/

namespace Header

end Header

/-- Fresh buffers are sound, and there are some for every row of samples. -/
theorem Buffers.init_sound
    (header : Header)
    {xsize : Nat}
    (row : xsize * 4 < 2 ^ 64) :
    Returns (init header xsize) ∧
      ∀ fresh, init header xsize = .ok fresh → Sound xsize fresh := by
  rw [init, addU_ok (by omega), ok_bind, mulU_ok (by omega), ok_bind]
  split
  next addressed =>
    refine ⟨within_ok _, ?_⟩
    rintro _ ⟨⟩
    exact {
      errors := List.length_replicate
      predErrors := fun _ => List.length_replicate
      prediction := fun _ => by norm_num
      pred := by norm_num
      addressed := by omega }
  next beyond =>
    refine ⟨returns_fail _, ?_⟩
    rintro _ ⟨⟩

/--
Whatever the header says, the buffers for a channel whose rows can be addressed
are allocated or refused, and then no call at a pixel of the channel stops.
-/
theorem Call.runs_complete
    (header : Header)
    {xsize : Nat}
    (row : xsize * 4 < 2 ^ 64)
    {calls : List Call}
    (inside : ∀ call ∈ calls, call.x < xsize) :
    Returns (Buffers.init header xsize) ∧
      ∀ fresh,
        Buffers.init header xsize = .ok fresh →
        Completes (calls.foldlM (Call.run xsize) fresh) := by
  obtain ⟨returns, sound⟩ := Buffers.init_sound header row
  refine ⟨returns, ?_⟩
  intro fresh isFresh
  obtain ⟨after, ran, _⟩ := Call.runs_ok (sound fresh isFresh) inside
  exact .of_eq_ok ran

/-- Extreme samples under the largest coefficients. -/
theorem Call.runs_complete_extreme :
    Returns (Buffers.init ⟨31, 31, 31, 31, 31, 31, 31, fun _ => 15⟩ 2) ∧
      ∀ fresh,
        Buffers.init ⟨31, 31, 31, 31, 31, 31, 31, fun _ => 15⟩ 2 = .ok fresh →
        Completes
          ([.predict true 0 0 2147483647 (-2147483648) 2147483647
              (-2147483648) 2147483647,
            .updateErrors (-2147483648) 0 0,
            .predict false 1 0 (-2147483648) 2147483647 (-2147483648)
              2147483647 (-2147483648),
            .updateErrors 2147483647 1 0].foldlM (Call.run 2) fresh) :=
  Call.runs_complete _ (by norm_num) (by
    intro call member
    simp only [List.mem_cons, List.not_mem_nil, or_false] at member
    rcases member with rfl | rfl | rfl | rfl <;> decide)

end Jxlz.Weighted
