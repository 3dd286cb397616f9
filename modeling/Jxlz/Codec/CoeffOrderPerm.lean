import Jxlz.Codec.CoeffOrder
import Jxlz.Codec.NaturalOrder
import Jxlz.Codec.TocPermutation

namespace Jxlz.CoeffOrder

open AcStrategy

/-!
# Every used class has its orders

A class gets its orders in the round of its first strategy.  They are the
natural order or a permutation of it that leaves the low-frequency entries in
place, so they are permutations with the same first entries.
-/

/-- Reading numbered entries of a list that has all of them. -/
theorem mapM_index
    {natural permutation order : List Nat}
    (mapped : permutation.mapM (index natural) = .ok order) :
    order = permutation.map fun entry => natural.getD entry 0 := by
  have allMapped := forall₂_of_mapM_eq_ok mapped
  clear mapped
  induction allMapped with
  | nil =>
      rfl
  | @cons entry item _ _ isItem _ inductionHypothesis =>
      rw [List.map_cons, ← inductionHypothesis, List.getD_eq_getElem?_getD,
        index_eq_ok.1 isItem, Option.getD_some]

theorem map_getD_range
    {size : Nat}
    {natural : List Nat}
    (length : natural.length = size) :
    (List.range size).map (fun entry => natural.getD entry 0) = natural := by
  subst length
  apply List.ext_getElem?
  intro entry
  rw [List.getElem?_map]
  by_cases inside : entry < natural.length
  · rw [List.getElem?_range inside, Option.map_some, List.getD_eq_getElem?_getD,
      List.getElem?_eq_getElem inside, Option.getD_some]
  · rw [List.getElem?_eq_none (by rw [List.length_range]; omega),
      List.getElem?_eq_none (by omega), Option.map_none]

/-- A permutation that keeps the first entries leaves an order ordered. -/
theorem ordered_permute
    {cx cy : Nat}
    {natural permutation order : List Nat}
    (ordered : Ordered cx cy natural)
    (perm : permutation.Perm (List.range (64 * cx * cy)))
    (fixes : permutation.take (cx * cy) = List.range (cx * cy))
    (mapped : permutation.mapM (index natural) = .ok order) :
    Ordered cx cy order := by
  have length : natural.length = 64 * cx * cy := by
    rw [ordered.perm.length_eq, List.length_range]
  have front : cx * cy ≤ 64 * cx * cy := by
    rw [Nat.mul_assoc]
    exact Nat.le_mul_of_pos_left _ (by omega)
  rw [mapM_index mapped]
  constructor
  · have moved := perm.map fun entry => natural.getD entry 0
    rw [map_getD_range length] at moved
    exact moved.trans ordered.perm
  · rw [← List.map_take, fixes, ← ordered.raster]
    have short : (natural.take (cx * cy)).length = cx * cy := by
      rw [List.length_take, length]
      omega
    rw [← map_getD_range short]
    apply List.map_congr_left
    intro entry member
    rw [List.getD_eq_getElem?_getD, List.getD_eq_getElem?_getD,
      List.getElem?_take_of_lt (List.mem_range.1 member)]

variable {contexts : List Nat}

/-- With a destination there is a permutation. -/
theorem readPermutation_some
    {skip size : Nat}
    {br after : BitReader}
    {reader readerAfter : ANSSymbolReader}
    {result : Option (List Nat)}
    (read :
      Toc.readPermutation skip size (some size) br reader contexts =
        .ok (result, readerAfter, after)) :
    ∃ permutation, result = some permutation := by
  unfold Toc.readPermutation at read
  split at read
  · cases read
  split at read
  · cases read
  obtain ⟨⟨count, reader, br⟩, _, read⟩ := bind_eq_ok.1 read
  dsimp only at read
  split at read
  · cases read
  split at read
  · cases read
  obtain ⟨digits, _, read⟩ := bind_eq_ok.1 read
  rw [if_pos Option.isSome_some] at read
  obtain ⟨permutation, _, read⟩ := bind_eq_ok.1 read
  cases read
  exact ⟨permutation, rfl⟩

variable {before after : Decoding}

/-- A used channel gets an order, and the classes are left alone. -/
theorem decodeChannel_ordered
    {extent : Extent}
    {custom : Bool}
    {natural contexts order : List Nat}
    (ordered :
      Ordered (max extent.x extent.y) (min extent.x extent.y) natural)
    (decoded :
      decodeChannel true custom (extent.x * extent.y)
          (64 * (extent.x * extent.y)) natural contexts before =
        .ok (order, after)) :
    Ordered (max extent.x extent.y) (min extent.x extent.y) order := by
  have area :
      64 * max extent.x extent.y * min extent.x extent.y =
        64 * (extent.x * extent.y) := by
    rw [Nat.mul_assoc, max_mul_min]
  unfold decodeChannel at decoded
  cases custom with
  | false =>
      cases decoded
      exact ordered
  | true =>
      rw [if_pos rfl] at decoded
      cases isReader : before.reader with
      | none =>
          rw [isReader] at decoded
          cases decoded
      | some reader =>
          rw [isReader] at decoded
          obtain ⟨⟨result, readerAfter, br⟩, isRead, decoded⟩ :=
            bind_eq_ok.1 decoded
          obtain ⟨permutation, rfl⟩ := readPermutation_some isRead
          obtain ⟨perm, fixes⟩ := Toc.readPermutation_perm isRead
          obtain ⟨entries, mapped, decoded⟩ := bind_eq_ok.1 decoded
          cases decoded
          refine ordered_permute ordered ?_ ?_ mapped
          · rw [area]
            exact perm
          · rw [max_mul_min]
            exact fixes

/-- Reading a channel changes the readers only. -/
theorem decodeChannel_keeps
    {used custom : Bool}
    {llf size : Nat}
    {natural contexts order : List Nat}
    (decoded :
      decodeChannel used custom llf size natural contexts before =
        .ok (order, after)) :
    after.classes = before.classes ∧ after.computed = before.computed := by
  unfold decodeChannel at decoded
  split at decoded
  · split at decoded
    · cases decoded
    · obtain ⟨⟨result, readerAfter, br⟩, _, decoded⟩ := bind_eq_ok.1 decoded
      obtain ⟨entries, _, decoded⟩ := bind_eq_ok.1 decoded
      cases decoded
      exact ⟨rfl, rfl⟩
  · cases decoded
    exact ⟨rfl, rfl⟩

/-- The three orders of a class of rectangles of this shape. -/
structure ClassOf
    (cx cy : Nat)
    (data : List Nat) :
    Prop where
  channels :
    ∃ order0 order1 order2,
      data = order0 ++ order1 ++ order2 ∧
        Ordered cx cy order0 ∧ Ordered cx cy order1 ∧ Ordered cx cy order2

variable {raw bucket : Nat}

/-- A used class is stored with its three orders. -/
theorem decodeClass_used
    {extent : Extent}
    {custom : Bool}
    (isExtent : strategyExtent raw = .ok extent)
    (decoded : decodeClass raw bucket true custom contexts before = .ok after) :
    ∃ data,
      ClassOf (max extent.x extent.y) (min extent.x extent.y) data ∧
        bucket < before.classes.length ∧
        after.classes = before.classes.set bucket data ∧
        after.computed = before.computed := by
  unfold decodeClass at decoded
  rw [isExtent, ok_bind] at decoded
  dsimp only at decoded
  rw [if_pos rfl] at decoded
  obtain ⟨natural, isNatural, ordered⟩ :=
    naturalOrder_ok isExtent
      (@List.length_replicate _ (64 * (extent.x * extent.y)) 0)
  rw [isNatural, ok_bind] at decoded
  obtain ⟨⟨order0, next0⟩, isOrder0, decoded⟩ := bind_eq_ok.1 decoded
  obtain ⟨⟨order1, next1⟩, isOrder1, decoded⟩ := bind_eq_ok.1 decoded
  obtain ⟨⟨order2, next2⟩, isOrder2, decoded⟩ := bind_eq_ok.1 decoded
  have keeps0 := decodeChannel_keeps isOrder0
  have keeps1 := decodeChannel_keeps isOrder1
  have keeps2 := decodeChannel_keeps isOrder2
  dsimp only at isOrder0 isOrder1 isOrder2 keeps0 keeps1 keeps2 decoded
  rw [if_pos rfl] at decoded
  obtain ⟨classes, isStored, decoded⟩ := bind_eq_ok.1 decoded
  cases decoded
  rw [keeps2.1, keeps1.1, keeps0.1] at isStored
  unfold store at isStored
  split at isStored
  next inside =>
    cases isStored
    exact ⟨_, {
      channels :=
        ⟨order0, order1, order2, rfl, decodeChannel_ordered ordered isOrder0,
          decodeChannel_ordered ordered isOrder1,
          decodeChannel_ordered ordered isOrder2⟩ },
      inside, rfl, keeps2.2.trans (keeps1.2.trans keeps0.2)⟩
  next outside =>
    cases isStored

/-- A class that nobody uses is not stored. -/
theorem decodeClass_unused
    {custom : Bool}
    (decoded : decodeClass raw bucket false custom contexts before = .ok after) :
    after.classes = before.classes ∧ after.computed = before.computed := by
  unfold decodeClass at decoded
  obtain ⟨extent, _, decoded⟩ := bind_eq_ok.1 decoded
  obtain ⟨natural, _, decoded⟩ := bind_eq_ok.1 decoded
  obtain ⟨⟨order0, next0⟩, isOrder0, decoded⟩ := bind_eq_ok.1 decoded
  obtain ⟨⟨order1, next1⟩, isOrder1, decoded⟩ := bind_eq_ok.1 decoded
  obtain ⟨⟨order2, next2⟩, isOrder2, decoded⟩ := bind_eq_ok.1 decoded
  have keeps0 := decodeChannel_keeps isOrder0
  have keeps1 := decodeChannel_keeps isOrder1
  have keeps2 := decodeChannel_keeps isOrder2
  dsimp only at keeps0 keeps1 keeps2 decoded
  rw [if_neg Bool.false_ne_true] at decoded
  cases decoded
  exact ⟨keeps2.1.trans (keeps1.1.trans keeps0.1),
    keeps2.2.trans (keeps1.2.trans keeps0.2)⟩

/-- What holds after the rounds of some strategies. -/
structure Decoded
    (used : Nat)
    (seen : List (Nat × Nat))
    (decoding : Decoding) :
    Prop where
  computed : ∀ item ∈ seen, decoding.computed.testBit item.1 = true
  classes :
    ∀ bucket,
      decoding.computed.testBit bucket = true →
      used.testBit bucket = true →
      ∃ data,
        decoding.classes[bucket]? = some data ∧
          ∀ (raw : Nat) (extent : Extent),
            kStrategyOrder[raw]? = some bucket →
            strategyExtent raw = .ok extent →
            ClassOf (max extent.x extent.y) (min extent.x extent.y) data

/-- The strategies of a class have one shape. -/
theorem shape_of_class
    {raw other bucket : Nat}
    {extent extent' : Extent}
    (isBucket : kStrategyOrder[raw]? = some bucket)
    (isBucket' : kStrategyOrder[other]? = some bucket)
    (isExtent : strategyExtent raw = .ok extent)
    (isExtent' : strategyExtent other = .ok extent') :
    max extent.x extent.y = max extent'.x extent'.y ∧
      min extent.x extent.y = min extent'.x extent'.y := by
  have all :
      ∀ first : Nat, first < 27 →
        ∀ second : Nat, second < 27 →
        kStrategyOrder[first]? = kStrategyOrder[second]? →
        (match strategyExtent (first : Int), strategyExtent (second : Int) with
          | .ok a, .ok b =>
              decide
                (max a.x a.y = max b.x b.y ∧ min a.x a.y = min b.x b.y)
          | _, _ => false) = true := by
    decide
  have known := (List.getElem?_eq_some_iff.1 isBucket).1
  have known' := (List.getElem?_eq_some_iff.1 isBucket').1
  have same := all raw known other known' (isBucket.trans isBucket'.symm)
  rw [isExtent, isExtent'] at same
  exact of_decide_eq_true same

/-- The strategies of all classes are known. -/
theorem extent_of_class
    (isBucket : kStrategyOrder[raw]? = some bucket) :
    ∃ extent, strategyExtent raw = .ok extent := by
  have all :
      ∀ number : Nat, number < 27 →
        (match strategyExtent (number : Int) with
          | .ok _ => true
          | .error _ => false) = true := by
    decide
  have isKnown := all raw (List.getElem?_eq_some_iff.1 isBucket).1
  cases isExtent : strategyExtent (raw : Int) with
  | ok extent =>
      exact ⟨extent, rfl⟩
  | error fault =>
      rw [isExtent] at isKnown
      cases isKnown

theorem testBit_or_bit
    (mask bucket other : Nat) :
    (mask ||| 1 <<< bucket).testBit other =
      (mask.testBit other || decide (bucket = other)) := by
  rw [Nat.testBit_or, Nat.one_shiftLeft, Nat.testBit_two_pow]

/-- One round computes the class of its strategy, unless it is there already. -/
theorem Decoded.round
    {usedOrders used raw bucket : Nat}
    {seen : List (Nat × Nat)}
    (decoded : Decoded used seen before)
    (isBucket : kStrategyOrder[raw]? = some bucket)
    (round :
      decodeStrategy usedOrders used contexts before (bucket, raw) = .ok after) :
    Decoded used (seen ++ [(bucket, raw)]) after := by
  unfold decodeStrategy at round
  dsimp only at round
  split at round
  next already =>
    cases round
    refine ⟨?_, decoded.classes⟩
    intro item member
    rcases List.mem_append.1 member with inSeen | isItem
    · exact decoded.computed item inSeen
    · rw [List.mem_singleton.1 isItem]
      exact already
  next fresh =>
    -- The mask after the round, whatever becomes of the class.
    have computed :
        ∀ item ∈ seen ++ [(bucket, raw)],
          (before.computed ||| 1 <<< bucket).testBit item.1 = true := by
      intro item member
      rw [testBit_or_bit]
      rcases List.mem_append.1 member with inSeen | isItem
      · rw [decoded.computed item inSeen, Bool.true_or]
      · rw [List.mem_singleton.1 isItem, decide_eq_true rfl, Bool.or_true]
    cases isUsed : used.testBit bucket with
    | true =>
        obtain ⟨extent, isExtent⟩ := extent_of_class isBucket
        rw [isUsed, Bool.not_true, Bool.false_and, if_neg Bool.false_ne_true]
          at round
        obtain ⟨data, isClass, inside, isStored, sameMask⟩ :=
          decodeClass_used isExtent round
        refine ⟨by rw [sameMask]; exact computed, ?_⟩
        intro other isComputed otherUsed
        rw [isStored]
        by_cases same : bucket = other
        · subst same
          refine ⟨data, List.getElem?_set_self inside, ?_⟩
          intro otherRaw otherExtent isOther isOtherExtent
          obtain ⟨sameMax, sameMin⟩ :=
            shape_of_class isBucket isOther isExtent isOtherExtent
          rw [← sameMax, ← sameMin]
          exact isClass
        · rw [List.getElem?_set_ne same]
          rw [sameMask, testBit_or_bit, decide_eq_false same, Bool.or_false]
            at isComputed
          exact decoded.classes other isComputed otherUsed
    | false =>
        have unchanged :
            after.classes = before.classes ∧
              after.computed = before.computed ||| 1 <<< bucket := by
          rw [isUsed] at round
          split at round
          · cases round
            exact ⟨rfl, rfl⟩
          · exact decodeClass_unused round
        refine ⟨by rw [unchanged.2]; exact computed, ?_⟩
        intro other isComputed otherUsed
        by_cases same : bucket = other
        · subst same
          rw [isUsed] at otherUsed
          cases otherUsed
        · rw [unchanged.2, testBit_or_bit, decide_eq_false same, Bool.or_false]
            at isComputed
          rw [unchanged.1]
          exact decoded.classes other isComputed otherUsed

/-- After the rounds of all strategies the used classes are there. -/
theorem Decoded.rounds
    {usedOrders used : Nat}
    {start : Decoding}
    (nothing : start.computed = 0)
    {items : List (Nat × Nat)}
    (listed : ∀ item ∈ items, kStrategyOrder[item.2]? = some item.1)
    {result : Decoding}
    (ran : items.foldlM (decodeStrategy usedOrders used contexts) start = .ok result) :
    Decoded used items result := by
  induction items using List.reverseRecOn generalizing result with
  | nil =>
      cases ran
      refine ⟨?_, ?_⟩
      · intro item member
        cases member
      · intro bucket isComputed
        rw [nothing, Nat.zero_testBit] at isComputed
        cases isComputed
  | append_singleton items item inductionHypothesis =>
      rw [List.foldlM_append] at ran
      obtain ⟨before, earlier, last⟩ := bind_eq_ok.1 ran
      rw [List.foldlM_cons] at last
      obtain ⟨after, round, done⟩ := bind_eq_ok.1 last
      cases done
      have decoded :=
        inductionHypothesis
          (fun other member => listed other (List.mem_append_left _ member)) earlier
      exact decoded.round
        (listed item (List.mem_append_right _ List.mem_cons_self)) round

/-- The class of a strategy that is used is used. -/
theorem testBit_usedClasses
    {usedAcs raw bucket : Nat}
    (isBucket : kStrategyOrder[raw]? = some bucket)
    (used : usedAcs.testBit raw = true) :
    (usedClasses usedAcs).testBit bucket = true := by
  have grows :
      ∀ (items : List (Nat × Nat)) (classes : Nat),
        classes.testBit bucket = true ∨ (bucket, raw) ∈ items →
        (items.foldl
          (fun classes entry =>
            if usedAcs.testBit entry.2 then classes ||| 1 <<< entry.1 else classes)
          classes).testBit bucket = true := by
    intro items
    induction items with
    | nil =>
        rintro classes (isSet | member)
        · exact isSet
        · cases member
    | cons item items inductionHypothesis =>
        intro classes known
        apply inductionHypothesis
        rcases known with isSet | member
        · refine .inl ?_
          dsimp only
          split
          · rw [testBit_or_bit, isSet, Bool.true_or]
          · exact isSet
        · rcases List.mem_cons.1 member with rfl | inRest
          · refine .inl ?_
            dsimp only
            rw [if_pos used, testBit_or_bit, decide_eq_true rfl, Bool.or_true]
          · exact .inr inRest
  exact grows _ 0 (.inr (List.mk_mem_zipIdx_iff_getElem?.2 isBucket))

/-- The channels of a class are its three orders. -/
theorem ClassOf.get
    {cx cy channel : Nat}
    {data : List Nat}
    (isClass : ClassOf cx cy data)
    (inRange : channel < 3) :
    Ordered cx cy
      ((data.drop (channel * (data.length / 3))).take (data.length / 3)) := by
  obtain ⟨order0, order1, order2, rfl, ordered0, ordered1, ordered2⟩ :=
    isClass.channels
  have length0 := ordered0.perm.length_eq
  have length1 := ordered1.perm.length_eq
  have length2 := ordered2.perm.length_eq
  rw [List.length_range] at length0 length1 length2
  have third : (order0 ++ order1 ++ order2).length / 3 = 64 * cx * cy := by
    rw [List.length_append, List.length_append, length0, length1, length2]
    omega
  rw [third, ← length0]
  obtain rfl | rfl | rfl : channel = 0 ∨ channel = 1 ∨ channel = 2 := by
    omega
  · rw [Nat.zero_mul, List.drop_zero, List.append_assoc, List.take_left]
    exact ordered0
  · rw [Nat.one_mul, List.append_assoc, List.drop_left, length0, ← length1,
      List.take_left]
    exact ordered1
  · have both : 2 * order0.length = (order0 ++ order1).length := by
      rw [List.length_append]
      omega
    rw [both, List.drop_left, length0, ← length2, List.take_length]
    exact ordered2

/--
The natural order of a strategy is a permutation that begins with the
low-frequency block in raster order; and the orders that are decoded for a used
strategy are permutations that begin like it.
-/
theorem orders_permute :
    (∀ (raw : Int) (extent : Extent) (order : List Nat),
      strategyExtent raw = .ok extent →
      order.length = 64 * (extent.x * extent.y) →
      ∃ natural,
        naturalOrder raw order = .ok natural ∧
          Ordered (max extent.x extent.y) (min extent.x extent.y) natural) ∧
      ∀ (usedOrders usedAcs : Nat) (br after : BitReader) (orders : Orders),
        decodeInner usedOrders usedAcs br = .ok (orders, after) →
        ∀ raw channel,
          raw < kNumValidStrategies →
          usedAcs.testBit raw = true →
          channel < 3 →
          ∃ extent natural order,
            strategyExtent (raw : Int) = .ok extent ∧
              naturalOrder raw
                  (List.replicate (64 * (extent.x * extent.y)) 0) =
                .ok natural ∧
              orders.get raw channel = .ok order ∧
              order.Perm (List.range (64 * (extent.x * extent.y))) ∧
              order.take (extent.x * extent.y) =
                natural.take (extent.x * extent.y) := by
  refine ⟨fun raw extent order isExtent size => naturalOrder_ok isExtent size, ?_⟩
  intro usedOrders usedAcs br after orders decoded raw channel known used inRange
  obtain ⟨bucket, isBucket⟩ : ∃ bucket, kStrategyOrder[raw]? = some bucket :=
    ⟨_, List.getElem?_eq_getElem (show raw < kStrategyOrder.length from known)⟩
  obtain ⟨extent, isExtent⟩ := extent_of_class isBucket
  obtain ⟨natural, isNatural, ordered⟩ :=
    naturalOrder_ok isExtent
      (@List.length_replicate _ (64 * (extent.x * extent.y)) 0)
  unfold decodeInner at decoded
  split at decoded
  · cases decoded
  obtain ⟨⟨contexts, reader, opened⟩, _, decoded⟩ := bind_eq_ok.1 decoded
  obtain ⟨decoding, ran, decoded⟩ := bind_eq_ok.1 decoded
  dsimp only at decoded
  split at decoded
  · cases decoded
  split at decoded
  · cases decoded
  cases decoded
  have complete :=
    Decoded.rounds rfl
      (fun item member => List.mem_zipIdx_iff_getElem?.1 member) ran
  obtain ⟨data, isData, isClass⟩ :=
    complete.classes bucket
      (complete.computed (bucket, raw) (List.mk_mem_zipIdx_iff_getElem?.2 isBucket))
      (testBit_usedClasses isBucket used)
  have isOrdered := (isClass raw extent isBucket isExtent).get inRange
  have area :
      64 * max extent.x extent.y * min extent.x extent.y =
        64 * (extent.x * extent.y) := by
    rw [Nat.mul_assoc, max_mul_min]
  have perm := isOrdered.perm
  have raster := isOrdered.raster
  have raster' := ordered.raster
  rw [area] at perm
  rw [max_mul_min] at raster raster'
  refine ⟨extent, natural, _, isExtent, isNatural, ?_, perm,
    raster.trans raster'.symm⟩
  have shape := shape_of_strategyExtent isExtent
  have nonempty : data.length ≠ 0 := by
    intro empty
    have none : data = [] :=
      List.eq_nil_of_length_eq_zero empty
    have length := perm.length_eq
    rw [none, List.drop_nil, List.take_nil, List.length_nil, List.length_range]
      at length
    have positive : 0 < extent.x * extent.y := by
      rw [← max_mul_min]
      exact Nat.mul_pos (shape.positive.trans_le shape.long) shape.positive
    omega
  have listed : ¬(kStrategyOrder.length ≤ raw ∨ 3 ≤ channel) := by
    rintro (late | late)
    · exact (known.trans_le late).false
    · exact (inRange.trans_le late).false
  unfold Orders.get
  rw [if_neg listed, index_eq_ok.2 isBucket, ok_bind, index_eq_ok.2 isData, ok_bind,
    if_neg nonempty]
  rfl

/-- A rectangle, and a custom order that swaps the second and third coefficient. -/
theorem orders_permute_swapped :
    (∃ natural,
      naturalOrder 10 (List.replicate 512 0) = .ok natural ∧
        Ordered 4 2 natural) ∧
      ∃ orders after order,
        decodeInner 1 1
            (BitReader.init ([242, 67, 249, 3] ++ List.replicate 20 0)) =
          .ok (orders, after) ∧
      orders.get 0 2 = .ok order ∧ order.Perm (List.range 64) := by
  refine ⟨orders_permute.1 10 ⟨2, 4⟩ _ rfl List.length_replicate, ?_⟩
  have evaluated :
      (decodeInner 1 1
        (BitReader.init
          ([242, 67, 249, 3] ++ List.replicate 20 0))).toOption.isSome = true := by
    decide +kernel
  cases decoded :
      decodeInner 1 1
        (BitReader.init ([242, 67, 249, 3] ++ List.replicate 20 0)) with
  | error fault =>
      rw [decoded] at evaluated
      cases evaluated
  | ok result =>
      obtain ⟨orders, after⟩ := result
      obtain ⟨extent, natural, order, isExtent, _, isOrder, perm, _⟩ :=
        orders_permute.2 1 1 _ after orders decoded 0 2 (by decide) (by decide)
          (by decide)
      cases isExtent
      exact ⟨orders, after, order, rfl, isOrder, perm⟩

end Jxlz.CoeffOrder
