import Jxlz.Entropy.HybridUintTotal

namespace Jxlz

open AliasTable AnsParams Except

/-!
# Symbol readers for known flags

`readHybridUintClusteredMaybeInlined` is the generic reader written out once more
for two flags that are fixed when it is compiled: whether the code has LZ77 and
whether it is a prefix code.  On the flags of its own code it makes the same
calls as the generic reader that is asked to use LZ77.
-/

namespace ANSSymbolReader

/-- Whether the reader has a window to copy from. -/
def usesLZ77
    (self : ANSSymbolReader) :
    Bool :=
  self.lz77Window.isSome

/-- `readSymbolWithoutRefill` for a known kind of code. -/
def readSymbolWithoutRefillSpecialized
    (self : ANSSymbolReader)
    (usePrefixCode : Bool)
    (histoIdx : Nat)
    (br : BitReader) :
    Checked (Nat × ANSSymbolReader × BitReader) :=
  match self.degenerateSymbol? histoIdx with
  | some symbol => return (symbol, self, br)
  | none =>
      if usePrefixCode then do
        let (symbol, br) ← self.readSymbolHuffWithoutRefill histoIdx br
        return (symbol, self, br)
      else
        self.readSymbolANSWithoutRefill histoIdx br

/-- The length, the distance and the first value of a copy, for a known kind of code. -/
def startCopySpecialized
    (self : ANSSymbolReader)
    (usePrefixCode : Bool)
    (token : Nat)
    (br : BitReader) :
    Checked (Nat × ANSSymbolReader × BitReader) := do
  let (length, br) ←
    readHybridUintConfigValue self.lz77LengthUint
      (token - self.lz77Threshold) br
  let numToCopy ← addU 32 length self.lz77MinLength
  let self := { self with numToCopy }
  let br := br.refill
  let (dToken, self, br) ←
    self.readSymbolWithoutRefillSpecialized usePrefixCode self.lz77Ctx br
  let config ← index self.configs self.lz77Ctx
  let (code, br) ← readHybridUintConfigValue config dToken br
  let distance ← self.copyDistance code
  let copyPos := (self.numDecoded + 2 ^ 32 - distance) % 2 ^ 32
  let self := { self with copyPos }
  let self ←
    if distance = 0 then
      match self.lz77Window with
      | none => .error .trap
      | some window =>
          let toFill := min self.numToCopy windowSize
          pure
            { self with
              lz77Window :=
                some (List.replicate toFill 0 ++ window.drop toFill) }
    else
      pure self
  if self.numToCopy < self.lz77MinLength then
    return (0, self, br)
  else
    let (ret, self) ← self.copyValue
    return (ret, self, br)

/-- Appends a decoded value to the window, which has to be there. -/
def recordValueUnwrapped
    (self : ANSSymbolReader)
    (value : Nat) :
    Checked ANSSymbolReader :=
  match self.lz77Window with
  | none => .error .trap
  | some window =>
      return { self with
        lz77Window := some (window.set (self.numDecoded &&& windowMask) value)
        numDecoded := (self.numDecoded + 1) % 2 ^ 32 }

/-- `readHybridUintClustered` for known flags. -/
def readHybridUintClusteredInlined
    (self : ANSSymbolReader)
    (usesLz77 usePrefixCode : Bool)
    (ctx : Nat)
    (br : BitReader) :
    Checked (Nat × ANSSymbolReader × BitReader) := do
  if usesLz77 ∧ 0 < self.numToCopy then
    let (ret, self) ← self.copyValue
    return (ret, self, br)
  else
    let br := br.refill
    let (token, self, br) ←
      self.readSymbolWithoutRefillSpecialized usePrefixCode ctx br
    if usesLz77 ∧ self.lz77Threshold ≤ token then
      self.startCopySpecialized usePrefixCode token br
    else
      let config ← index self.configs ctx
      let (ret, br) ← readHybridUintConfigValue config token br
      if usesLz77 then
        let self ← self.recordValueUnwrapped ret
        return (ret, self, br)
      else
        return (ret, self, br)

/-- The same, kept out of line. -/
def readHybridUintClusteredSpecialized
    (self : ANSSymbolReader)
    (usesLz77 usePrefixCode : Bool)
    (ctx : Nat)
    (br : BitReader) :
    Checked (Nat × ANSSymbolReader × BitReader) :=
  self.readHybridUintClusteredInlined usesLz77 usePrefixCode ctx br

/-- The reader for known flags: inlined only without LZ77. -/
def readHybridUintClusteredMaybeInlined
    (self : ANSSymbolReader)
    (usesLz77 usePrefixCode : Bool)
    (ctx : Nat)
    (br : BitReader) :
    Checked (Nat × ANSSymbolReader × BitReader) :=
  if usesLz77 then
    self.readHybridUintClusteredSpecialized usesLz77 usePrefixCode ctx br
  else
    self.readHybridUintClusteredInlined usesLz77 usePrefixCode ctx br

variable (self : ANSSymbolReader)

/-- Inlined or not, the reader for known flags is one function. -/
theorem maybeInlined_eq_inlined
    (usesLz77 usePrefixCode : Bool)
    (ctx : Nat)
    (br : BitReader) :
    self.readHybridUintClusteredMaybeInlined usesLz77 usePrefixCode ctx br =
      self.readHybridUintClusteredInlined usesLz77 usePrefixCode ctx br := by
  unfold readHybridUintClusteredMaybeInlined readHybridUintClusteredSpecialized
  cases usesLz77 with
  | true => rfl
  | false => rfl

/-- For the kind of its own code the symbol reader is the generic one. -/
theorem readSymbolSpecialized_eq
    (histoIdx : Nat)
    (br : BitReader) :
    self.readSymbolWithoutRefillSpecialized self.usePrefixCode histoIdx br =
      self.readSymbolWithoutRefill histoIdx br :=
  rfl

/-- So is the start of a copy. -/
theorem startCopySpecialized_eq
    (token : Nat)
    (br : BitReader) :
    self.startCopySpecialized self.usePrefixCode token br =
      self.startCopy token br :=
  rfl

/-- Where the window is there, both ways to append a value are one. -/
theorem recordValueUnwrapped_eq
    {self : ANSSymbolReader}
    (hasWindow : self.usesLZ77 = true)
    (value : Nat) :
    self.recordValueUnwrapped value = .ok (self.recordValue value) := by
  unfold recordValueUnwrapped recordValue
  cases isWindow : self.lz77Window with
  | none =>
      rw [usesLZ77, isWindow] at hasWindow
      cases hasWindow
  | some window =>
      rfl

/-! No call adds or drops the window. -/

theorem usesLZ77_copyPos
    (copyPos : Nat) :
    ({ self with copyPos } : ANSSymbolReader).usesLZ77 = self.usesLZ77 :=
  rfl

theorem copyValue_usesLZ77
    {self next : ANSSymbolReader}
    {value : Nat}
    (copied : self.copyValue = .ok (value, next)) :
    next.usesLZ77 = self.usesLZ77 := by
  unfold copyValue at copied
  unfold usesLZ77
  cases isWindow : self.lz77Window with
  | none =>
      rw [isWindow] at copied
      cases copied
  | some window =>
      rw [isWindow] at copied
      obtain ⟨ret, _, copied⟩ := bind_eq_ok.1 copied
      obtain ⟨numToCopy, _, copied⟩ := bind_eq_ok.1 copied
      cases copied
      rfl

theorem recordValue_usesLZ77
    (value : Nat) :
    (self.recordValue value).usesLZ77 = self.usesLZ77 := by
  unfold recordValue usesLZ77
  cases isWindow : self.lz77Window with
  | none =>
      exact congrArg Option.isSome isWindow
  | some window =>
      rfl

variable {br after : BitReader}

theorem readSymbol_usesLZ77
    {self next : ANSSymbolReader}
    {histoIdx symbol : Nat}
    (read : self.readSymbolWithoutRefill histoIdx br = .ok (symbol, next, after)) :
    next.usesLZ77 = self.usesLZ77 := by
  unfold readSymbolWithoutRefill at read
  split at read
  · cases read
    rfl
  · split at read
    · obtain ⟨_, _, read⟩ := bind_eq_ok.1 read
      cases read
      rfl
    · unfold readSymbolANSWithoutRefill at read
      obtain ⟨_, _, read⟩ := bind_eq_ok.1 read
      obtain ⟨_, _, read⟩ := bind_eq_ok.1 read
      obtain ⟨_, _, read⟩ := bind_eq_ok.1 read
      obtain ⟨_, _, read⟩ := bind_eq_ok.1 read
      cases read
      rfl

theorem startCopy_usesLZ77
    {self next : ANSSymbolReader}
    {token value : Nat}
    (started : self.startCopy token br = .ok (value, next, after)) :
    next.usesLZ77 = self.usesLZ77 := by
  obtain ⟨⟨length, br₁⟩, _, started⟩ := bind_eq_ok.1 started
  obtain ⟨numToCopy, _, started⟩ := bind_eq_ok.1 started
  obtain ⟨⟨dToken, reader, br₂⟩, isToken, started⟩ := bind_eq_ok.1 started
  obtain ⟨config, _, started⟩ := bind_eq_ok.1 started
  obtain ⟨⟨code, br₃⟩, _, started⟩ := bind_eq_ok.1 started
  obtain ⟨distance, _, started⟩ := bind_eq_ok.1 started
  have finished (placed : ANSSymbolReader)
      (kept : placed.usesLZ77 = self.usesLZ77)
      (ends :
        (if placed.numToCopy < placed.lz77MinLength then
            return (0, placed, br₃)
          else do
            let copied ← placed.copyValue
            return (copied.1, copied.2, br₃)) =
          (.ok (value, next, after) : Checked (Nat × ANSSymbolReader × BitReader))) :
      next.usesLZ77 = self.usesLZ77 := by
    split at ends
    · cases ends
      exact kept
    · obtain ⟨⟨ret, copied⟩, isCopied, ends⟩ := bind_eq_ok.1 ends
      cases ends
      rw [copyValue_usesLZ77 isCopied, kept]
  have kept : reader.usesLZ77 = self.usesLZ77 := by
    dsimp only at isToken
    rw [readSymbol_usesLZ77 isToken]
    rfl
  dsimp only at started
  generalize (reader.numDecoded + 2 ^ 32 - distance) % 2 ^ 32 = copyPos at started
  split at started
  · cases isWindow : reader.lz77Window with
    | none =>
        rw [isWindow] at started
        cases started
    | some window =>
        rw [isWindow] at started
        dsimp only at started
        rw [pure_eq_ok, ok_bind] at started
        refine finished _ ?_ started
        rw [← kept, usesLZ77, usesLZ77, isWindow]
        rfl
  · rw [pure_eq_ok, ok_bind] at started
    exact finished _ ((usesLZ77_copyPos reader copyPos).trans kept) started

/-- The generic reader keeps the window, too. -/
theorem readHybridUintClustered_usesLZ77
    {self next : ANSSymbolReader}
    {ctx value : Nat}
    {usesLz77 : Bool}
    (read :
      self.readHybridUintClustered ctx br usesLz77 = .ok (value, next, after)) :
    next.usesLZ77 = self.usesLZ77 := by
  unfold readHybridUintClustered at read
  split at read
  · obtain ⟨⟨ret, copied⟩, isCopied, read⟩ := bind_eq_ok.1 read
    cases read
    exact copyValue_usesLZ77 isCopied
  · obtain ⟨⟨token, reader, br₁⟩, isToken, read⟩ := bind_eq_ok.1 read
    rw [← readSymbol_usesLZ77 isToken]
    dsimp only at read
    split at read
    · exact startCopy_usesLZ77 read
    · obtain ⟨config, _, read⟩ := bind_eq_ok.1 read
      obtain ⟨⟨ret, br₂⟩, _, read⟩ := bind_eq_ok.1 read
      cases read
      split
      · exact recordValue_usesLZ77 reader _
      · rfl

/-- The reader of a code has a window exactly if the code uses LZ77. -/
theorem create_usesLZ77
    {code : ANSCode}
    {distanceMultiplier : Nat}
    {reader : ANSSymbolReader}
    (created : create code br distanceMultiplier = .ok (reader, after)) :
    reader.usesLZ77 = code.lz77.enabled := by
  obtain ⟨started, br₁, isStarted, created⟩ := create_starts created
  have noWindow : started.lz77Window = none := by
    rcases isStarted with ⟨_, rfl, rfl⟩ | ⟨_, _, _, _, _, rfl⟩
    · rfl
    · rfl
  unfold usesLZ77
  split at created
  next enabled =>
    obtain ⟨_, _, created⟩ := bind_eq_ok.1 created
    obtain ⟨_, _, created⟩ := bind_eq_ok.1 created
    cases created
    exact enabled.symm
  next disabled =>
    cases created
    rw [noWindow]
    rw [Bool.not_eq_true] at disabled
    exact disabled.symm

end ANSSymbolReader

/--
The readers of a code that calls can lead to: created at any bit position, and
read in any context, from any bits, by the generic reader or by the one for the
code's flags.
-/
inductive ANSSymbolReader.Reachable
    (code : ANSCode) :
    ANSSymbolReader → Prop where
  | created
      {br after : BitReader}
      {multiplier : Nat}
      {reader : ANSSymbolReader}
      (isOpen : br.closeCalled = false)
      (isCreated : create code br multiplier = .ok (reader, after)) :
      Reachable code reader
  | generic
      {reader next : ANSSymbolReader}
      {ctx value : Nat}
      {br after : BitReader}
      {usesLz77 : Bool}
      (reached : Reachable code reader)
      (inside : ctx < code.uintConfig.length)
      (isOpen : br.closeCalled = false)
      (isRead :
        reader.readHybridUintClustered ctx br usesLz77 =
          .ok (value, next, after)) :
      Reachable code next
  | specialized
      {reader next : ANSSymbolReader}
      {ctx value : Nat}
      {br after : BitReader}
      (reached : Reachable code reader)
      (inside : ctx < code.uintConfig.length)
      (isOpen : br.closeCalled = false)
      (isRead :
        reader.readHybridUintClusteredMaybeInlined code.lz77.enabled
            code.usePrefixCode ctx br =
          .ok (value, next, after)) :
      Reachable code next

/-- Between two calls: the reader is sound, and copies if its code does. -/
structure ReaderReady
    (numHistograms : Nat)
    (code : ANSCode)
    (reader : ANSSymbolReader) :
    Prop extends ReaderSound numHistograms code reader where
  window : reader.usesLZ77 = code.lz77.enabled

section Ready

variable {numHistograms : Nat}
variable {code : ANSCode}
variable {reader : ANSSymbolReader}
variable {br : BitReader}

theorem create_ready
    {multiplier : Nat}
    {after : BitReader}
    (sound : CodeSound numHistograms code)
    (isOpen : br.closeCalled = false)
    (created : ANSSymbolReader.create code br multiplier = .ok (reader, after)) :
    ReaderReady numHistograms code reader ∧ after.closeCalled = false := by
  obtain ⟨readerSound, stillOpen⟩ := create_sound sound isOpen created
  exact ⟨⟨readerSound, ANSSymbolReader.create_usesLZ77 created⟩, stillOpen⟩

variable {ctx : Nat}

theorem readHybridUintClustered_ready
    (sound : CodeSound numHistograms code)
    (ready : ReaderReady numHistograms code reader)
    (inside : ctx < numHistograms)
    (isOpen : br.closeCalled = false)
    {usesLz77 : Bool}
    {value : Nat}
    {next : ANSSymbolReader}
    {after : BitReader}
    (read :
      reader.readHybridUintClustered ctx br usesLz77 =
        .ok (value, next, after)) :
    ReaderReady numHistograms code next ∧ after.closeCalled = false := by
  obtain ⟨_, keeps⟩ :=
    readHybridUintClustered_iff sound ready.toReaderSound inside isOpen usesLz77
  obtain ⟨nextSound, stillOpen⟩ := keeps value next after read
  refine ⟨⟨nextSound, ?_⟩, stillOpen⟩
  rw [ANSSymbolReader.readHybridUintClustered_usesLZ77 read, ready.window]

/-- A reader without a window is idle, and no symbol reaches its threshold. -/
theorem ReaderReady.neverCopies
    (ready : ReaderReady numHistograms code reader)
    (noWindow : reader.usesLZ77 = false) :
    NeverCopies reader := by
  rcases ready.copies with ⟨⟨window, isWindow, _⟩, _⟩ | never
  · rw [ANSSymbolReader.usesLZ77, isWindow] at noWindow
    cases noWindow
  · exact never

/-- With LZ77 the reader for known flags is the generic one. -/
theorem inlined_eq_withLZ77
    (sound : CodeSound numHistograms code)
    (ready : ReaderReady numHistograms code reader)
    (inside : ctx < numHistograms)
    (isOpen : br.closeCalled = false)
    (hasWindow : reader.usesLZ77 = true) :
    reader.readHybridUintClusteredInlined true reader.usePrefixCode ctx br =
      reader.readHybridUintClustered ctx br true := by
  unfold ANSSymbolReader.readHybridUintClusteredInlined
    ANSSymbolReader.readHybridUintClustered
  by_cases copying : true = true ∧ 0 < reader.numToCopy
  · rw [if_pos copying, if_pos copying]
  · obtain ⟨token, state, br₁, _, isToken, _⟩ :=
      readSymbol_open sound ready.toReaderSound inside isOpen
    have withWindow :
        ({ reader with state } : ANSSymbolReader).usesLZ77 = true :=
      hasWindow
    rw [if_neg copying, if_neg copying]
    dsimp only
    rw [ANSSymbolReader.readSymbolSpecialized_eq, isToken, ok_bind, ok_bind]
    dsimp only
    by_cases starts : true = true ∧ reader.lz77Threshold ≤ token
    · rw [if_pos starts, if_pos starts]
      exact ANSSymbolReader.startCopySpecialized_eq _ token br₁
    · rw [if_neg starts, if_neg starts]
      apply Agree.eq
      apply Agree.bind_same
      intro config _
      apply Agree.bind_same
      rintro ⟨ret, br₂⟩ _
      dsimp only
      rw [if_pos rfl, if_pos rfl,
        ANSSymbolReader.recordValueUnwrapped_eq withWindow, ok_bind]
      exact .ok rfl

/-- Without LZ77 the generic reader finds no copy and records nothing. -/
theorem inlined_eq_withoutLZ77
    (sound : CodeSound numHistograms code)
    (ready : ReaderReady numHistograms code reader)
    (inside : ctx < numHistograms)
    (isOpen : br.closeCalled = false)
    (noWindow : reader.usesLZ77 = false) :
    reader.readHybridUintClusteredInlined false reader.usePrefixCode ctx br =
      reader.readHybridUintClustered ctx br true := by
  obtain ⟨idle, isThreshold⟩ := ready.neverCopies noWindow
  obtain ⟨token, state, br₁, _, isToken, small, _⟩ :=
    readSymbol_open sound ready.toReaderSound inside isOpen
  have notCopying : ¬(true = true ∧ 0 < reader.numToCopy) := by
    rintro ⟨_, pending⟩
    omega
  have below : ¬(true = true ∧ reader.lz77Threshold ≤ token) := by
    rintro ⟨_, above⟩
    have threshold : reader.lz77Threshold = 2 ^ 20 := isThreshold
    omega
  have nothingRecorded (ret : Nat) :
      ANSSymbolReader.recordValue { reader with state } ret =
        { reader with state } := by
    unfold ANSSymbolReader.usesLZ77 at noWindow
    unfold ANSSymbolReader.recordValue
    rw [Option.isSome_eq_false_iff, Option.isNone_iff_eq_none] at noWindow
    dsimp only
    rw [noWindow]
  unfold ANSSymbolReader.readHybridUintClusteredInlined
    ANSSymbolReader.readHybridUintClustered
  rw [if_neg (by simp), if_neg notCopying]
  dsimp only
  rw [ANSSymbolReader.readSymbolSpecialized_eq, isToken, ok_bind, ok_bind]
  dsimp only
  rw [if_neg (by simp), if_neg below]
  apply Agree.eq
  apply Agree.bind_same
  intro config _
  apply Agree.bind_same
  rintro ⟨ret, br₂⟩ _
  dsimp only
  rw [if_neg Bool.false_ne_true, if_pos rfl, nothingRecorded]
  exact .ok rfl

/-- On the flags of its code the specialised reader is the generic one. -/
theorem maybeInlined_eq_generic
    (sound : CodeSound numHistograms code)
    (ready : ReaderReady numHistograms code reader)
    (inside : ctx < numHistograms)
    (isOpen : br.closeCalled = false) :
    reader.readHybridUintClusteredMaybeInlined code.lz77.enabled
        code.usePrefixCode ctx br =
      reader.readHybridUintClustered ctx br true := by
  rw [ANSSymbolReader.maybeInlined_eq_inlined, ← ready.window, ← ready.isPrefix]
  cases hasWindow : reader.usesLZ77 with
  | true =>
      exact inlined_eq_withLZ77 sound ready inside isOpen hasWindow
  | false =>
      exact inlined_eq_withoutLZ77 sound ready inside isOpen hasWindow

/-- Every reader that calls lead to is ready for the next one. -/
theorem ANSSymbolReader.Reachable.ready
    (sound : CodeSound numHistograms code)
    (reached : Reachable code reader) :
    ReaderReady numHistograms code reader := by
  induction reached with
  | created isOpen isCreated =>
      exact (create_ready sound isOpen isCreated).1
  | generic _ inside isOpen isRead inductionHypothesis =>
      rw [sound.configs] at inside
      exact
        (readHybridUintClustered_ready sound inductionHypothesis inside isOpen
          isRead).1
  | specialized _ inside isOpen isRead inductionHypothesis =>
      rw [sound.configs] at inside
      rw [maybeInlined_eq_generic sound inductionHypothesis inside isOpen] at isRead
      exact
        (readHybridUintClustered_ready sound inductionHypothesis inside isOpen
          isRead).1

end Ready

end Jxlz
