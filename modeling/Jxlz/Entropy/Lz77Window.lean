import Jxlz.Entropy.DecAns
import Jxlz.Lib.Agree
import Jxlz.Lib.RingWindow

namespace Jxlz

open RingWindow

/-!
# The LZ77 window and the list it stands for

`Expansion` says what an LZ77 code means: literals are appended to a list
without a bound, and a copy appends the element at a fixed distance from the
end, as often as its length says.  The symbol reader keeps a ring buffer and
32-bit counters instead; `Mirrors` relates the two, and every call on the
reader answers what the expansion answers.
-/

/-- What the entropy-coded tokens of one call ask for. -/
inductive Command where
  | literal (value : Nat)
  | copy (length distanceCode : Nat)
  deriving Repr, DecidableEq

/-- Reads the length and the distance code of a copy. -/
def ANSSymbolReader.readCopy
    (self : ANSSymbolReader)
    (token : Nat)
    (br : BitReader) :
    Checked (Command × ANSSymbolReader × BitReader) := do
  let (length, br) ←
    readHybridUintConfigValue self.lz77LengthUint
      (token - self.lz77Threshold) br
  let length ← addU 32 length self.lz77MinLength
  let (dToken, self, br) ←
    self.readSymbolWithoutRefill self.lz77Ctx br.refill
  let config ← index self.configs self.lz77Ctx
  let (distanceCode, br) ← readHybridUintConfigValue config dToken br
  return (.copy length distanceCode, self, br)

/-- Reads the command of a context: a literal, or the two parts of a copy. -/
def ANSSymbolReader.readCommand
    (self : ANSSymbolReader)
    (ctx : Nat)
    (br : BitReader) :
    Checked (Command × ANSSymbolReader × BitReader) := do
  let (token, self, br) ← self.readSymbolWithoutRefill ctx br.refill
  if self.lz77Threshold ≤ token then
    self.readCopy token br
  else
    let config ← index self.configs ctx
    let (value, br) ← readHybridUintConfigValue config token br
    return (.literal value, self, br)

/-- The distance that a code stands for, with and without a multiplier. -/
def commandDistance
    (multiplier code : Nat) :
    Checked Nat := do
  if multiplier = 0 then
    return code + 1
  else if code < numSpecialDistances then
    let distance ← specialDistance code multiplier
    return distance.toNat
  else
    return code + 1 - numSpecialDistances

/-- The values produced so far and the copy that is still going on. -/
structure Expansion where
  reader : ANSSymbolReader
  br : BitReader
  output : List Nat := []
  pending : Nat := 0
  distance : Nat := 0

namespace Expansion

/-- The element at the copy distance, zero when nothing was produced before. -/
def repeated
    (self : Expansion) :
    Nat :=
  if self.distance = 0 then
    0
  else
    self.output.getD (self.output.length - self.distance) 0

/-- The next value of a copy. -/
def repeatValue
    (self : Expansion) :
    Nat × Expansion :=
  (self.repeated,
    { self with
      output := self.output ++ [self.repeated]
      pending := self.pending - 1 })

/-- Carries out a command that was read; a copy has at least one value. -/
def perform
    (multiplier : Nat)
    (self : Expansion) :
    Command × ANSSymbolReader × BitReader → Checked (Nat × Expansion)
  | (.literal value, reader, br) =>
      return (value,
        { self with reader, br, output := self.output ++ [value] })
  | (.copy length distanceCode, reader, br) => do
      let distance ← commandDistance multiplier distanceCode
      require (0 < length)
      return repeatValue
        { self with
          reader
          br
          pending := length
          distance := min (min distance self.output.length) windowSize }

/-- The next value of a context. -/
def next
    (multiplier : Nat)
    (self : Expansion)
    (ctx : Nat) :
    Checked (Nat × Expansion) :=
  if 0 < self.pending then
    return self.repeatValue
  else
    self.reader.readCommand ctx self.br >>= self.perform multiplier

end Expansion

namespace ANSSymbolReader

/-- A call that reads with LZ77, on the reader and its bits. -/
def nextClustered
    (state : ANSSymbolReader × BitReader)
    (ctx : Nat) :
    Checked (Nat × ANSSymbolReader × BitReader) :=
  state.1.readHybridUintClustered ctx state.2 true

/-- The reader with the given window and counters. -/
def withWindow
    (self : ANSSymbolReader)
    (window : List Nat)
    (numDecoded numToCopy copyPos : Nat) :
    ANSSymbolReader :=
  { self with
    lz77Window := some window
    numDecoded
    numToCopy
    copyPos }

/-- Two readers that differ in the window and the counters only. -/
structure SameEntropy
    (window : List Nat)
    (numDecoded numToCopy copyPos : Nat)
    (before : ANSSymbolReader)
    (first second : Nat × ANSSymbolReader × BitReader) :
    Prop where
  sameSymbol :
    first.1 = second.1
  sameBits :
    first.2.2 = second.2.2
  sameReader :
    first.2.1 = second.2.1.withWindow window numDecoded numToCopy copyPos
  onlyState :
    second.2.1 = { before with state := second.2.1.state }

/-- The window and the counters play no part in reading a symbol. -/
theorem readSymbolWithoutRefill_withWindow
    (self : ANSSymbolReader)
    (window : List Nat)
    (numDecoded numToCopy copyPos ctx : Nat)
    (br : BitReader) :
    Agree (SameEntropy window numDecoded numToCopy copyPos self)
      ((self.withWindow window numDecoded numToCopy
          copyPos).readSymbolWithoutRefill ctx br)
      (self.readSymbolWithoutRefill ctx br) := by
  unfold readSymbolWithoutRefill
  have sameDegenerate :
      (self.withWindow window numDecoded numToCopy copyPos).degenerateSymbol?
          ctx =
        self.degenerateSymbol? ctx :=
    rfl
  rw [sameDegenerate]
  cases self.degenerateSymbol? ctx with
  | some symbol =>
      exact .ok ⟨rfl, rfl, rfl, rfl⟩
  | none =>
      dsimp only
      cases isPrefix : self.usePrefixCode with
      | true =>
          rw [if_pos (by exact isPrefix), if_pos rfl]
          apply Agree.bind_same
          intro read _
          exact .ok ⟨rfl, rfl, rfl, rfl⟩
      | false =>
          rw [if_neg (by simp [withWindow, isPrefix]), if_neg (by simp)]
          unfold readSymbolANSWithoutRefill
          apply Agree.bind_same
          intro symbol _
          apply Agree.bind_same
          intro state _
          apply Agree.bind_same
          intro peeked _
          apply Agree.bind_same
          intro after _
          exact .ok ⟨rfl, rfl, rfl, rfl⟩

/-- The special distances that a reader has computed for its multiplier. -/
structure Resolves
    (multiplier : Nat)
    (reader : ANSSymbolReader) :
    Prop where
  cachedCount :
    reader.numSpecialDistancesCached =
      if multiplier = 0 then 0 else numSpecialDistances
  cached :
    ∀ code,
      code < reader.numSpecialDistancesCached →
      ∃ distance : Int,
        specialDistance code multiplier = .ok distance ∧
          1 ≤ distance ∧
          reader.specialDistancesCache[code]? = some distance.toNat

/-- A special distance is at least one. -/
theorem one_le_specialDistance
    {position : Nat}
    {multiplier distance : Int}
    (resolved : specialDistance position multiplier = .ok distance) :
    1 ≤ distance := by
  obtain ⟨_, _, resolved⟩ := bind_eq_ok.1 resolved
  obtain ⟨_, _, resolved⟩ := bind_eq_ok.1 resolved
  obtain ⟨dist, _, resolved⟩ := bind_eq_ok.1 resolved
  cases resolved
  split
  next large =>
    omega
  next small =>
    exact Int.le_refl 1

/-- A reader before its LZ77 fields are set. -/
def Started
    (code : ANSCode)
    (br : BitReader)
    (started : ANSSymbolReader)
    (startedBr : BitReader) :
    Prop :=
  (code.usePrefixCode = true ∧ startedBr = br ∧
      started =
        { aliasTables := code.aliasTables
          huffmanData := code.huffmanData
          degenerateSymbols := code.degenerateSymbols
          usePrefixCode := code.usePrefixCode
          configs := code.uintConfig }) ∨
    ∃ state logEntrySize,
      code.usePrefixCode = false ∧
        br.readBits 32 = .ok (state, startedBr) ∧
        subU AnsParams.ansLogTabSize code.logAlphaSize = .ok logEntrySize ∧
        started =
          { aliasTables := code.aliasTables
            huffmanData := code.huffmanData
            degenerateSymbols := code.degenerateSymbols
            usePrefixCode := code.usePrefixCode
            configs := code.uintConfig
            state
            logAlphaSize := code.logAlphaSize
            logEntrySize
            entrySizeMinus1 := 1 <<< logEntrySize - 1 }

/-- A reader is started before its LZ77 fields are set. -/
theorem create_starts
    {code : ANSCode}
    {br after : BitReader}
    {multiplier : Nat}
    {self : ANSSymbolReader}
    (created : create code br multiplier = .ok (self, after)) :
    ∃ started startedBr,
      Started code br started startedBr ∧
        (if code.lz77.enabled then do
            let numCached := if multiplier = 0 then 0 else numSpecialDistances
            let checkedMultiplier ← castI32 multiplier
            let distances ←
              (List.range numCached).mapM
                (fun i => specialDistance i checkedMultiplier)
            pure
              ({ started with
                  lz77Window := some (List.replicate windowSize 0)
                  lz77Ctx := code.lz77.nonserializedDistanceContext
                  lz77LengthUint := code.lz77.lengthUintConfig
                  lz77Threshold := code.lz77.minSymbol
                  lz77MinLength := code.lz77.minLength
                  numSpecialDistancesCached := numCached
                  specialDistancesCache :=
                    distances.map Int.toNat ++
                      started.specialDistancesCache.drop numCached },
                startedBr)
          else
            pure (started, startedBr)) =
          (.ok (self, after) : Checked (ANSSymbolReader × BitReader)) := by
  unfold create at created
  cases isPrefix : code.usePrefixCode with
  | true =>
      simp only [isPrefix, if_true] at created
      exact ⟨_, _, .inl ⟨isPrefix, rfl, by rw [isPrefix]⟩, created⟩
  | false =>
      simp only [isPrefix, Bool.false_eq_true, if_false] at created
      obtain ⟨⟨state, startedBr⟩, isState, created⟩ := bind_eq_ok.1 created
      obtain ⟨logEntrySize, isSize, created⟩ := bind_eq_ok.1 created
      exact ⟨_, _, .inr ⟨state, logEntrySize, isPrefix, isState, isSize,
        by rw [isPrefix]⟩, created⟩

/-- A reader that was created for LZ77 has an empty window and its distances. -/
theorem create_lz77
    {code : ANSCode}
    {br after : BitReader}
    {multiplier : Nat}
    {self : ANSSymbolReader}
    (enabled : code.lz77.enabled = true)
    (created : create code br multiplier = .ok (self, after)) :
    self = self.withWindow (List.replicate windowSize 0) 0 0 0 ∧
      Resolves multiplier self := by
  obtain ⟨started, startedBr, isStarted, created⟩ := create_starts created
  have counters :
      started.numDecoded = 0 ∧ started.numToCopy = 0 ∧ started.copyPos = 0 := by
    rcases isStarted with ⟨_, _, rfl⟩ | ⟨_, _, _, _, _, rfl⟩
    · exact ⟨rfl, rfl, rfl⟩
    · exact ⟨rfl, rfl, rfl⟩
  rw [if_pos enabled] at created
  obtain ⟨checkedMultiplier, isChecked, resolvedAll⟩ := bind_eq_ok.1 created
  obtain ⟨distances, computed, finished⟩ := bind_eq_ok.1 resolvedAll
  have sameMultiplier : checkedMultiplier = (multiplier : Int) := by
    unfold castI32 at isChecked
    split at isChecked
    · exact (Except.ok.inj isChecked).symm
    · cases isChecked
  rw [sameMultiplier] at computed
  cases finished
  refine ⟨?_, rfl, ?_⟩
  · simp only [withWindow, counters]
  · intro position inside
    dsimp only at inside ⊢
    have pairs := forall₂_of_mapM_eq_ok computed
    have sameLength : distances.length = _ :=
      pairs.length_eq.symm.trans List.length_range
    have inDistances : position < distances.length := by
      rw [sameLength]
      exact inside
    have resolved := pairs.get (by simpa using inside) inDistances
    simp only [List.get_eq_getElem, List.getElem_range] at resolved
    refine ⟨distances[position], resolved, one_le_specialDistance resolved, ?_⟩
    rw [List.getElem?_append_left (by simpa using inDistances),
      List.getElem?_map, List.getElem?_eq_getElem inDistances, Option.map_some]

/-- The distance of a copy in terms of its code and of what was produced. -/
theorem copyDistance_eq
    {multiplier : Nat}
    {reader : ANSSymbolReader}
    (resolves : Resolves multiplier reader)
    (window : List Nat)
    (numDecoded numToCopy copyPos code : Nat) :
    (reader.withWindow window numDecoded numToCopy copyPos).copyDistance code =
      (do
        let distance ← commandDistance multiplier code
        return min (min distance numDecoded) windowSize) := by
  have cachedCount := resolves.cachedCount
  unfold copyDistance commandDistance
  by_cases special : code < reader.numSpecialDistancesCached
  · obtain ⟨distance, resolved, _, inCache⟩ := resolves.cached code special
    have positive : multiplier ≠ 0 := by
      rintro rfl
      rw [cachedCount, if_pos rfl] at special
      cases special
    rw [cachedCount, if_neg positive] at special
    have fromCache :
        index (reader.withWindow window numDecoded numToCopy
            copyPos).specialDistancesCache code =
          .ok distance.toNat :=
      index_eq_ok.2 inCache
    rw [if_pos (by simpa [withWindow, cachedCount, positive] using special),
      if_neg positive, if_pos special, fromCache, resolved]
    rfl
  · have small : reader.numSpecialDistancesCached ≤ code + 1 := by
      omega
    have subtracted :
        subU (code + 1)
            (reader.withWindow window numDecoded numToCopy
              copyPos).numSpecialDistancesCached =
          .ok (code + 1 - reader.numSpecialDistancesCached) :=
      subU_ok small
    rw [if_neg (by simpa [withWindow] using special), subtracted]
    by_cases noMultiplier : multiplier = 0
    · rw [cachedCount, if_pos noMultiplier, if_pos noMultiplier]
      rfl
    · rw [cachedCount, if_neg noMultiplier] at special ⊢
      rw [if_neg noMultiplier, if_neg special]
      rfl

/-- Every code stands for a distance of at least one. -/
theorem commandDistance_pos
    {multiplier code distance : Nat}
    (resolved : commandDistance multiplier code = .ok distance) :
    0 < distance := by
  unfold commandDistance at resolved
  split at resolved
  · cases resolved
    omega
  · split at resolved
    · obtain ⟨special, isSpecial, resolved⟩ := bind_eq_ok.1 resolved
      have atLeastOne := one_le_specialDistance isSpecial
      cases resolved
      omega
    · cases resolved
      omega

end ANSSymbolReader

end Jxlz
