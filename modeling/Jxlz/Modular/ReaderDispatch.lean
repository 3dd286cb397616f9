import Jxlz.Entropy.SpecializedReaders
import Jxlz.Modular.SourceAgreement

namespace Jxlz.Modular

open ContextPredict Except

/-!
# Choosing the symbol reader of a channel

Channels are decoded by the symbol reader that fits the flags of their code.
Whatever the strategy, the samples and what is left of the bits are the same.
-/

/-- Which symbol readers to decode with. -/
inductive ReaderStrategy where
  | reference
  | specialized
  deriving Repr, DecidableEq

/-- A symbol reader and the bits that it reads. -/
abbrev ReaderInput : Type :=
  ANSSymbolReader × BitReader

def readHybridUintClusteredReference : SymbolSource ReaderInput :=
  fun ctx input => input.1.readHybridUintClustered ctx input.2 true

def readHybridUintClusteredNoLZ77ANS : SymbolSource ReaderInput :=
  fun ctx input =>
    input.1.readHybridUintClusteredMaybeInlined false false ctx input.2

def readHybridUintClusteredLZ77ANS : SymbolSource ReaderInput :=
  fun ctx input =>
    input.1.readHybridUintClusteredMaybeInlined true false ctx input.2

def readHybridUintClusteredNoLZ77Huff : SymbolSource ReaderInput :=
  fun ctx input =>
    input.1.readHybridUintClusteredMaybeInlined false true ctx input.2

def readHybridUintClusteredLZ77Huff : SymbolSource ReaderInput :=
  fun ctx input =>
    input.1.readHybridUintClusteredMaybeInlined true true ctx input.2

/-- Decode one channel with the generic symbol reader. -/
def decodeModularChannelReference
    (contextMap : List Nat)
    (globalTree : List PropertyDecisionNode)
    (wpHeader : Weighted.Header)
    (chan groupId : Nat)
    (image : Image)
    (input : ReaderInput) :
    Checked (Image × ReaderInput) :=
  decodeModularChannelImpl readHybridUintClusteredReference contextMap globalTree
    wpHeader chan groupId image input

/-- Decode one channel; the symbol reader is chosen before the first pixel. -/
def decodeModularChannelWithReaderStrategy
    (readerStrategy : ReaderStrategy)
    (contextMap : List Nat)
    (globalTree : List PropertyDecisionNode)
    (wpHeader : Weighted.Header)
    (chan groupId : Nat)
    (image : Image)
    (input : ReaderInput) :
    Checked (Image × ReaderInput) :=
  if readerStrategy = .reference then
    decodeModularChannelReference contextMap globalTree wpHeader chan groupId image
      input
  else if input.1.usePrefixCode then
    if input.1.usesLZ77 then
      decodeModularChannelImpl readHybridUintClusteredLZ77Huff contextMap globalTree
        wpHeader chan groupId image input
    else
      decodeModularChannelImpl readHybridUintClusteredNoLZ77Huff contextMap
        globalTree wpHeader chan groupId image input
  else if input.1.usesLZ77 then
    decodeModularChannelImpl readHybridUintClusteredLZ77ANS contextMap globalTree
      wpHeader chan groupId image input
  else
    decodeModularChannelImpl readHybridUintClusteredNoLZ77ANS contextMap globalTree
      wpHeader chan groupId image input

/-- The channels from a list of indices on, up to the first one that is too large. -/
def decodeModularChannels
    (readerStrategy : ReaderStrategy)
    (contextMap : List Nat)
    (globalTree : List PropertyDecisionNode)
    (wpHeader : Weighted.Header)
    (nbMetaChannels maxChanSize groupId : Nat) :
    List Nat → Image → ReaderInput → Checked (Image × ReaderInput)
  | [], image, input => return (image, input)
  | c :: rest, image, input => do
      let ch ← index image.channels c
      if nbMetaChannels ≤ c ∧ (maxChanSize < ch.w ∨ maxChanSize < ch.h) then
        return (image, input)
      else if ch.w = 0 ∨ ch.h = 0 then
        decodeModularChannels readerStrategy contextMap globalTree wpHeader
          nbMetaChannels maxChanSize groupId rest image input
      else
        let (image, input) ←
          decodeModularChannelWithReaderStrategy readerStrategy contextMap
            globalTree wpHeader c groupId image input
        decodeModularChannels readerStrategy contextMap globalTree wpHeader
          nbMetaChannels maxChanSize groupId rest image input

/--
The part of `modularDecodeWithReaderStrategy` behind the tree and the code: the
reader is created, all channels are decoded, and its last state is checked.
-/
def decodeChannelData
    (readerStrategy : ReaderStrategy)
    (code : ANSCode)
    (contextMap : List Nat)
    (globalTree : List PropertyDecisionNode)
    (wpHeader : Weighted.Header)
    (nbMetaChannels maxChanSize distanceMultiplier groupId : Nat)
    (image : Image)
    (br : BitReader) :
    Checked (Image × BitReader) := do
  let input ← ANSSymbolReader.create code br distanceMultiplier
  let (image, input) ←
    decodeModularChannels readerStrategy contextMap globalTree wpHeader
      nbMetaChannels maxChanSize groupId (List.range image.channels.length) image
      input
  if input.1.checkANSFinalState then
    return (image, input.2)
  else
    fail .GenericError

/-- One input on both sides, ready for the next symbol. -/
structure SameReady
    (numHistograms : Nat)
    (code : ANSCode)
    (left right : ReaderInput) :
    Prop where
  input : left = right
  ready : ReaderReady numHistograms code right.1
  isOpen : right.2.closeCalled = false

section Dispatch

variable {numHistograms : Nat}
variable {code : ANSCode}
variable {contextMap : List Nat}

/-- The symbol reader for the flags of a code reads what the generic one reads. -/
theorem specialized_sourcesAgree
    (sound : CodeSound numHistograms code)
    (inMap : ∀ htree ∈ contextMap, htree < numHistograms) :
    SourcesAgree (· ∈ contextMap) (SameReady numHistograms code)
      (fun ctx input =>
        input.1.readHybridUintClusteredMaybeInlined code.lz77.enabled
          code.usePrefixCode ctx input.2)
      readHybridUintClusteredReference := by
  rintro ctx named _ ⟨reader, br⟩ ⟨rfl, ready, isOpen⟩
  dsimp only [readHybridUintClusteredReference] at ready isOpen ⊢
  rw [maybeInlined_eq_generic sound ready (inMap ctx named) isOpen]
  cases read : reader.readHybridUintClustered ctx br true with
  | error fault =>
      exact .error fault
  | ok result =>
      obtain ⟨value, next, after⟩ := result
      obtain ⟨nextReady, stillOpen⟩ :=
        readHybridUintClustered_ready sound ready (inMap ctx named) isOpen read
      exact .ok ⟨rfl, rfl, nextReady, stillOpen⟩

/-- A channel is decoded alike whichever strategy is chosen. -/
theorem channel_agree
    (sound : CodeSound numHistograms code)
    (inMap : ∀ htree ∈ contextMap, htree < numHistograms)
    (globalTree : List PropertyDecisionNode)
    (wpHeader : Weighted.Header)
    (chan groupId : Nat)
    (image : Image)
    {first second : ReaderInput}
    (same : SameReady numHistograms code first second) :
    Agree (SameRead (SameReady numHistograms code))
      (decodeModularChannelWithReaderStrategy .specialized contextMap globalTree
        wpHeader chan groupId image first)
      (decodeModularChannelWithReaderStrategy .reference contextMap globalTree
        wpHeader chan groupId image second) := by
  have agree :=
    (specialized_sourcesAgree sound inMap).decodeModularChannelImpl globalTree
      wpHeader chan groupId image same
  obtain ⟨rfl, ready, _⟩ := same
  rw [← ready.window, ← ready.isPrefix] at agree
  unfold decodeModularChannelWithReaderStrategy
  rw [if_neg (by decide), if_pos rfl]
  cases usePrefixCode : first.1.usePrefixCode with
  | true =>
      rw [usePrefixCode] at agree
      cases usesLZ77 : first.1.usesLZ77 with
      | true =>
          rw [usesLZ77] at agree
          exact agree
      | false =>
          rw [usesLZ77] at agree
          exact agree
  | false =>
      rw [usePrefixCode] at agree
      cases usesLZ77 : first.1.usesLZ77 with
      | true =>
          rw [usesLZ77] at agree
          exact agree
      | false =>
          rw [usesLZ77] at agree
          exact agree

/-- So are all channels, one after the other. -/
theorem channels_agree
    (sound : CodeSound numHistograms code)
    (inMap : ∀ htree ∈ contextMap, htree < numHistograms)
    (globalTree : List PropertyDecisionNode)
    (wpHeader : Weighted.Header)
    (nbMetaChannels maxChanSize groupId : Nat)
    (chans : List Nat)
    (image : Image)
    {first second : ReaderInput}
    (same : SameReady numHistograms code first second) :
    Agree (SameRead (SameReady numHistograms code))
      (decodeModularChannels .specialized contextMap globalTree wpHeader
        nbMetaChannels maxChanSize groupId chans image first)
      (decodeModularChannels .reference contextMap globalTree wpHeader
        nbMetaChannels maxChanSize groupId chans image second) := by
  induction chans generalizing image first second with
  | nil =>
      exact .ok ⟨rfl, same⟩
  | cons c rest inductionHypothesis =>
      unfold decodeModularChannels
      apply Agree.bind_same
      intro ch _
      split
      · exact .ok ⟨rfl, same⟩
      · split
        · exact inductionHypothesis image same
        · apply
            (channel_agree sound inMap globalTree wpHeader c groupId image same).bind
          rintro ⟨decoded, next⟩ ⟨decoded', next'⟩ ⟨sameImage, sameNext⟩
          dsimp only at sameImage sameNext ⊢
          rw [sameImage]
          exact inductionHypothesis decoded' sameNext

end Dispatch

/--
Specialised and generic symbol readers.  For every code that is decoded, and in
every state that calls lead to, the reader for the flags of the code returns the
value of the generic one, with the same state and bits behind it, or fails alike.
A channel is thus decoded the same by both strategies, and so is all the channel
data of an image.
-/
theorem specializedReaders_agree
    {numContexts : Nat}
    {coded decoded : BitReader}
    {contextMap : List Nat}
    {code : ANSCode}
    (isCode :
      decodeHistograms numContexts coded = .ok (contextMap, code, decoded)) :
    (∀ reader,
        ANSSymbolReader.Reachable code reader →
        reader.usesLZ77 = code.lz77.enabled ∧
          reader.usePrefixCode = code.usePrefixCode ∧
          ∀ ctx br,
            ctx < code.uintConfig.length →
            br.closeCalled = false →
            reader.readHybridUintClusteredMaybeInlined code.lz77.enabled
                code.usePrefixCode ctx br =
              reader.readHybridUintClustered ctx br true) ∧
      (∀ reader br globalTree wpHeader chan groupId image,
          ANSSymbolReader.Reachable code reader →
          br.closeCalled = false →
          decodeModularChannelWithReaderStrategy .specialized contextMap
              globalTree wpHeader chan groupId image (reader, br) =
            decodeModularChannelWithReaderStrategy .reference contextMap
              globalTree wpHeader chan groupId image (reader, br)) ∧
      ∀ br globalTree wpHeader nbMetaChannels maxChanSize distanceMultiplier
        groupId image,
        br.closeCalled = false →
          decodeChannelData .specialized code contextMap globalTree wpHeader
              nbMetaChannels maxChanSize distanceMultiplier groupId image br =
            decodeChannelData .reference code contextMap globalTree wpHeader
              nbMetaChannels maxChanSize distanceMultiplier groupId image br := by
  obtain ⟨numHistograms, inMap, sound⟩ := decodeHistograms_sound isCode
  refine ⟨?_, ?_, ?_⟩
  · intro reader reached
    have ready := reached.ready sound
    refine ⟨ready.window, ready.isPrefix, ?_⟩
    intro ctx br inside isOpen
    rw [sound.configs] at inside
    exact maybeInlined_eq_generic sound ready inside isOpen
  · intro reader br globalTree wpHeader chan groupId image reached isOpen
    apply Agree.eq
    apply
      (channel_agree sound inMap globalTree wpHeader chan groupId image
        ⟨rfl, reached.ready sound, isOpen⟩).mono
    rintro ⟨decoded, next⟩ ⟨decoded', next'⟩ ⟨sameImage, sameNext⟩
    exact Prod.ext sameImage sameNext.input
  · intro br globalTree wpHeader nbMetaChannels maxChanSize distanceMultiplier
      groupId image isOpen
    apply Agree.eq
    unfold decodeChannelData
    apply Agree.bind_same
    rintro ⟨reader, start⟩ created
    obtain ⟨ready, startOpen⟩ := create_ready sound isOpen created
    apply
      (channels_agree sound inMap globalTree wpHeader nbMetaChannels maxChanSize
        groupId (List.range image.channels.length) image
        ⟨rfl, ready, startOpen⟩).bind
    rintro ⟨decoded, next⟩ ⟨decoded', next'⟩ ⟨sameImage, sameNext⟩
    dsimp only at sameImage sameNext ⊢
    rw [sameImage, sameNext.input]
    exact Agree.refl (fun _ => rfl) _

section TwoSymbols

/-- A prefix code of the symbols zero and one, and behind it 1, 0, 1 and 1. -/
def twoSymbols : List UInt8 :=
  [126, 40, 27, 0, 0, 0, 0, 0, 0, 0, 0, 0, 0, 0, 0, 0, 0, 0, 0, 0, 0, 0, 0, 0]

/-- The code is decoded, and its symbols are the samples of a channel. -/
theorem twoSymbols_decoded :
    ∃ contextMap code decoded reader start,
      decodeHistograms 1 (BitReader.init twoSymbols) =
          .ok (contextMap, code, decoded) ∧
        decoded.closeCalled = false ∧
        ANSSymbolReader.create code decoded 0 = .ok (reader, start) ∧
        start.closeCalled = false ∧
        0 < code.uintConfig.length ∧
        ∃ image after,
          decodeChannelData .reference code contextMap [.leaf .zero 0 1] {}
                0 8 0 0 { channels := [.create 2 2 0 0] } decoded =
              .ok (image, after) ∧
            (image.chan 0).sample 0 0 = -1 := by
  have ran :
      (do
          let read ← decodeHistograms 1 (BitReader.init twoSymbols)
          let created ← ANSSymbolReader.create read.2.1 read.2.2 0
          let channel ←
            decodeChannelData .reference read.2.1 read.1 [.leaf .zero 0 1] {} 0 8 0
              0 { channels := [.create 2 2 0 0] } read.2.2
          return (read.2.2.closeCalled, created.2.closeCalled,
            decide (0 < read.2.1.uintConfig.length), (channel.1.chan 0).sample 0 0)) =
        (.ok (false, false, true, -1) : Checked (Bool × Bool × Bool × Int32)) := by
    decide +kernel
  obtain ⟨⟨contextMap, code, decoded⟩, isCode, ran⟩ := bind_eq_ok.1 ran
  obtain ⟨⟨reader, start⟩, created, ran⟩ := bind_eq_ok.1 ran
  obtain ⟨⟨image, after⟩, isImage, ran⟩ := bind_eq_ok.1 ran
  simp only [pure_eq_ok, Except.ok.injEq, Prod.mk.injEq, decide_eq_true_eq] at ran
  obtain ⟨isOpen, startOpen, inside, isSample⟩ := ran
  exact ⟨contextMap, code, decoded, reader, start, isCode, isOpen, created, startOpen,
    inside, image, after, isImage, isSample⟩

/-- One symbol of that code, and the channel, from both kinds of readers. -/
theorem specializedReaders_agree_twoSymbols :
    ∃ contextMap code decoded reader start,
      decodeHistograms 1 (BitReader.init twoSymbols) =
          .ok (contextMap, code, decoded) ∧
        ANSSymbolReader.create code decoded 0 = .ok (reader, start) ∧
        reader.readHybridUintClusteredMaybeInlined code.lz77.enabled
              code.usePrefixCode 0 start =
            reader.readHybridUintClustered 0 start true ∧
        ∃ image after,
          decodeChannelData .specialized code contextMap [.leaf .zero 0 1] {} 0 8
                0 0 { channels := [.create 2 2 0 0] } decoded =
              .ok (image, after) ∧
            (image.chan 0).sample 0 0 = -1 := by
  obtain ⟨contextMap, code, decoded, reader, start, isCode, isOpen, created, startOpen,
    inside, image, after, isImage, isSample⟩ := twoSymbols_decoded
  obtain ⟨readers, _, data⟩ := specializedReaders_agree isCode
  obtain ⟨_, _, reads⟩ := readers reader (.created isOpen created)
  refine ⟨contextMap, code, decoded, reader, start, isCode, created,
    reads 0 start inside startOpen, image, after, ?_, isSample⟩
  rw [data decoded _ _ _ _ _ _ _ isOpen]
  exact isImage

end TwoSymbols

end Jxlz.Modular
