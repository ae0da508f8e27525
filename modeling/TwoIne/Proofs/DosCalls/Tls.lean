import TwoIne.DosCalls.Tls

/-! Live thread-local blocks never overlap, as long as the search does not slide off the mask. -/

namespace TwoIne

/-- A block of slots handed out and not released yet. -/
structure TlsBlock where
  first : Nat
  count : Nat
  deriving DecidableEq, Repr

/-- The slots a block occupies. -/
def TlsBlock.Covers (b : TlsBlock) (j : Nat) : Prop :=
  b.first ≤ j ∧ j < b.first + b.count

/-- The slot state together with the blocks the callers hold. -/
structure TlsBooks where
  tls : TlsState := {}
  live : List TlsBlock := []
  deriving DecidableEq

/-- A call on the thread-local slots, with what the host answers when the page must be mapped. -/
inductive TlsCall where
  | alloc (cb : Nat) (wanted : Bool) (initTLSPage : Option Nat)
  | free (block : TlsBlock)
  deriving DecidableEq

/-- One call, and the change it makes to the blocks the callers hold. -/
def tlsStep (s : TlsBooks) : TlsCall → Option (TlsBooks × ApiRet × Option Nat)
  | .alloc cb wanted initTLSPage =>
    match dosAllocThreadLocalMemory cb wanted initTLSPage s.tls with
    | none => none
    | some (tls, ret, none) => some (⟨tls, s.live⟩, ret, none)
    | some (tls, ret, some p) =>
      -- The caller now holds the slots its pointer stands for.
      some (⟨tls, ⟨tlsSlotOf (tls.tlspage.getD 0) p, cb⟩ :: s.live⟩, ret, some p)
  | .free block =>
    match dosFreeThreadLocalMemory (s.tls.tlspage.getD 0 + 4 * block.first) s.tls with
    | none => none
    | some (tls, ret) =>
      -- A refused release leaves the block with its holder.
      some (⟨tls, if ret = .noError then s.live.erase block else s.live⟩, ret, none)

/-- Only pointers that were returned and not released yet are released. -/
def TlsMay (s : TlsBooks) : TlsCall → Prop
  | .alloc .. => True
  | .free block => block ∈ s.live

/-- The mask and the length table describe exactly the blocks in the callers' hands. -/
structure TlsGood (s : TlsBooks) : Prop where
  paged : s.tls.tlspage = none → s.live = []
  disjoint : s.live.Pairwise fun a b => ∀ j, a.Covers j → ¬ b.Covers j
  inside : ∀ b ∈ s.live, b.first + b.count ≤ 32
  mask : ∀ j < 32, s.tls.tlsmask.getLsbD j = true ↔ ∃ b ∈ s.live, b.Covers j
  lengths : ∀ b ∈ s.live, s.tls.tlsallocs[b.first]? = some b.count
  elsewhere : ∀ j < 32, (∀ b ∈ s.live, b.first ≠ j) → s.tls.tlsallocs[j]? = some 0
  empties : ∀ b ∈ s.live, b.count = 0 → b.first = 0
  sizes : ∀ b ∈ s.live, b.count ≤ 8

/-- A run of `cb` free slots that starts at slot `i` and ends inside the mask. -/
def TlsRunFree (tlsmask : BitVec 32) (i cb : Nat) : Prop :=
  i + cb ≤ 32 ∧ ∀ j < 32, i ≤ j → j < i + cb → tlsmask.getLsbD j = false

instance (tlsmask : BitVec 32) (i cb : Nat) : Decidable (TlsRunFree tlsmask i cb) :=
  inferInstanceAs (Decidable (_ ∧ _))

/-- Only the positions inside the mask have to be tried. -/
instance (tlsmask : BitVec 32) (cb : Nat) : Decidable (∃ i, TlsRunFree tlsmask i cb) :=
  decidable_of_iff (∃ i ≤ 32, TlsRunFree tlsmask i cb)
    ⟨fun ⟨i, _, free⟩ => ⟨i, free⟩, fun ⟨i, free⟩ => ⟨i, Nat.le_of_add_right_le free.1, free⟩⟩

/-- What one call is meant to do to the slots. -/
def TlsDone (s : TlsBooks) (call : TlsCall) (t : TlsBooks) (out : ApiRet × Option Nat) : Prop :=
  match call with
  | .alloc cb _ initTLSPage =>
    (out.1 = .noError →
      -- A granted request returns slots that were all free.
      ∃ b page, t.live = b :: s.live ∧ b.count = cb ∧ t.tls.tlspage = some page ∧
        out.2 = some (page + 4 * b.first) ∧ ∀ j, b.Covers j → s.tls.tlsmask.getLsbD j = false) ∧
    (out.1 ≠ .noError → t = s ∧
      -- With a page at hand, a refusal for lack of memory means that no run is free.
      (out.1 = .errorNotEnoughMemory → (tlsEnsurePage s.tls initTLSPage).isSome →
        ∀ i, ¬ TlsRunFree s.tls.tlsmask i cb))
  | .free block =>
    -- A release clears the bits of its own block and no others.
    ∀ j < 32, t.tls.tlsmask.getLsbD j = true ↔ s.tls.tlsmask.getLsbD j = true ∧ ¬ block.Covers j

/--
The requests the search serves correctly.

A request for no slots must not find slot 0 at the head of a block. A request for one to eight slots
needs a free run inside the mask, or a taken last slot that stops the window before it slides off;
it also must not take over slot 0 from a block of no slots.
-/
def TlsServable (s : TlsBooks) : TlsCall → Prop
  | .alloc cb wanted initTLSPage =>
    8 < cb ∨ wanted = false ∨ tlsEnsurePage s.tls initTLSPage = none ∨
    (cb = 0 ∧ ∀ b ∈ s.live, b.first = 0 → b.count = 0) ∨
    (0 < cb ∧ ((∃ i, TlsRunFree s.tls.tlsmask i cb) ∨ s.tls.tlsmask.getLsbD 31 = true) ∧
      (⟨0, 0⟩ ∈ s.live → ¬ TlsRunFree s.tls.tlsmask 0 cb))
  | .free _ => True

instance (s : TlsBooks) (call : TlsCall) : Decidable (TlsMay s call) := by
  cases call <;> unfold TlsMay <;> infer_instance

instance (s : TlsBooks) (call : TlsCall) : Decidable (TlsServable s call) := by
  cases call <;> unfold TlsServable <;> infer_instance

/-- No slot under the window at position `i` is taken, whether or not the window fits the mask. -/
def TlsWindowClear (tlsmask : BitVec 32) (cb i : Nat) : Prop :=
  ∀ j < 32, i ≤ j → j < i + cb → tlsmask.getLsbD j = false

/-- The window at position `i` covers the slots from `i` up, cut off at the top of the mask. -/
theorem tlsWindow_bit {cb : Nat} (small : cb ≤ 8) (i j : Nat) :
    (tlsWindow cb <<< i).getLsbD j = decide (j < 32 ∧ i ≤ j ∧ j < i + cb) := by
  -- Eight set bits are shifted down to `cb` of them and then up to the position.
  have low : ∀ k, (0xFF#32).getLsbD k = decide (k < 8) := by
    intro k
    have eight : (0xFF#32 : BitVec 32) = BitVec.ofNat 32 (2 ^ 8 - 1) := rfl
    rw [eight, BitVec.getLsbD_ofNat, Nat.testBit_two_pow_sub_one]
    grind
  simp only [tlsWindow, BitVec.getLsbD_shiftLeft, BitVec.getLsbD_ushiftRight, low]
  grind

/-- The test of the search loop passes exactly when the window is clear. -/
theorem tlsWindowFree_iff {cb : Nat} (small : cb ≤ 8) (tlsmask : BitVec 32) (i : Nat) :
    tlsWindowFree tlsmask (tlsWindow cb <<< i) = true ↔ TlsWindowClear tlsmask cb i := by
  -- Both sides are compared one bit at a time.
  simp only [tlsWindowFree, beq_iff_eq, TlsWindowClear]
  constructor
  · intro same j inside low high
    have bit := congrArg (BitVec.getLsbD · j) same
    simp only [BitVec.getLsbD_and, BitVec.getLsbD_xor, tlsWindow_bit small, inside, low, high,
      and_self, decide_true, Bool.and_true] at bit
    -- A taken bit under the window would be flipped by the exclusive or.
    cases taken : tlsmask.getLsbD j with
    | false => rfl
    | true => simp only [taken, Bool.xor_self] at bit; contradiction
  · intro clear
    apply BitVec.eq_of_getLsbD_eq
    intro j inside
    simp only [BitVec.getLsbD_and, BitVec.getLsbD_xor, tlsWindow_bit small]
    -- Outside of the window both sides have no bit.
    by_cases under : i ≤ j ∧ j < i + cb
    · simp only [inside, under, and_self, clear j inside under.1 under.2, decide_true,
        Bool.false_xor, Bool.and_true]
    · simp only [under, and_false, decide_false, Bool.and_false]

/-- The loop stops at the first clear window among the positions that remain. -/
theorem tlsScan_spec {cb : Nat} (small : cb ≤ 8) (tlsmask : BitVec 32) (left i : Nat) :
    let r := tlsScan tlsmask left (tlsWindow cb <<< i) i
    i ≤ r ∧ r ≤ i + left ∧ (∀ k, i ≤ k → k < r → ¬ TlsWindowClear tlsmask cb k) ∧
      (r < i + left → TlsWindowClear tlsmask cb r) := by
  -- The induction is on the positions that remain, with the window moving up by one.
  induction left generalizing i with
  | zero => simp [tlsScan]; omega
  | succ left ih =>
    have test := tlsWindowFree_iff small tlsmask i
    simp only [tlsScan]
    by_cases free : tlsWindowFree tlsmask (tlsWindow cb <<< i) = true
    · -- The loop stops at the window it tries.
      simp only [if_pos free]
      exact ⟨Nat.le_refl i, by omega, fun k low high => by omega, fun _ => test.mp free⟩
    · -- The window moves up by one and the loop goes on.
      simp only [if_neg free, ← BitVec.shiftLeft_add]
      obtain ⟨low, high, skipped, found⟩ := ih (i + 1)
      refine ⟨by omega, by omega, ?_, fun inside => found (by omega)⟩
      intro k above below
      -- The position passed is the one tried here or one of the later ones.
      rcases Nat.eq_or_lt_of_le above with same | later
      · exact same ▸ fun clear => free (test.mpr clear)
      · exact skipped k later below

/-- The search returns the first clear window, or 32 when no window is clear. -/
theorem tlsFind_spec {cb : Nat} (small : cb ≤ 8) (tlsmask : BitVec 32) :
    tlsFind tlsmask cb ≤ 32 ∧ (∀ k < tlsFind tlsmask cb, ¬ TlsWindowClear tlsmask cb k) ∧
      (tlsFind tlsmask cb < 32 → TlsWindowClear tlsmask cb (tlsFind tlsmask cb)) := by
  -- The loop starts with the unshifted window at position zero.
  have spec := tlsScan_spec small tlsmask 32 0
  simp only [BitVec.shiftLeft_zero, Nat.zero_add] at spec
  obtain ⟨_, high, skipped, found⟩ := spec
  exact ⟨high, fun k below => skipped k (Nat.zero_le k) below, found⟩

/-- A free run is a clear window that fits. -/
theorem TlsRunFree.clear {tlsmask : BitVec 32} {i cb : Nat} (free : TlsRunFree tlsmask i cb) :
    TlsWindowClear tlsmask cb i := free.2

/-- With a free run inside the mask, or the last slot taken, what the search finds fits the mask. -/
theorem tlsFind_fits {cb : Nat} (small : cb ≤ 8) {tlsmask : BitVec 32}
    (served : (∃ i, TlsRunFree tlsmask i cb) ∨ tlsmask.getLsbD 31 = true)
    (found : tlsFind tlsmask cb < 32) : TlsRunFree tlsmask (tlsFind tlsmask cb) cb := by
  obtain ⟨_, skipped, clear⟩ := tlsFind_spec small tlsmask
  -- The two conditions keep the window inside for different reasons.
  have fits : tlsFind tlsmask cb + cb ≤ 32 := by
    rcases served with ⟨k, free⟩ | last
    -- The search cannot pass the free run, and that run ends inside the mask.
    · have before : tlsFind tlsmask cb ≤ k := by
        by_contra later
        exact skipped k (by omega) free.clear
      have := free.1
      omega
    -- A window over the edge would cover the last slot.
    · by_contra beyond
      have free := clear found 31 (by omega) (by omega) (by omega)
      exact absurd (free.symm.trans last) (by decide)
  exact ⟨fits, clear found⟩

/-- With no free run and a free last slot, the search stops at a window cut off by the edge. -/
theorem tlsFind_over_edge {cb : Nat} (small : cb ≤ 8) {tlsmask : BitVec 32}
    (none_free : ∀ i, ¬ TlsRunFree tlsmask i cb) (last : tlsmask.getLsbD 31 = false) :
    tlsFind tlsmask cb < 32 ∧ 32 < tlsFind tlsmask cb + cb := by
  obtain ⟨high, skipped, clear⟩ := tlsFind_spec small tlsmask
  -- The window over the last slot alone is clear, so the search stops there at the latest.
  have found : tlsFind tlsmask cb < 32 := by
    by_contra missed
    refine skipped 31 (by omega) ?_
    intro j inside low _
    have : j = 31 := by omega
    exact this ▸ last
  refine ⟨found, ?_⟩
  -- A window that fits would be a free run, of which there is none.
  by_contra fits
  exact none_free _ ⟨by omega, clear found⟩

/-- The slot number of a returned pointer is the slot it was computed from. -/
theorem tlsSlotOf_add (page : Nat) {i : Nat} (inside : i < 32) :
    tlsSlotOf page (page + 4 * i) = i := by
  -- A pointer into the page is four bytes further for each slot.
  simp only [tlsSlotOf]
  omega

/-- The slot state after `cb` slots from slot `i` up were handed out. -/
def tlsGrant (s : TlsState) (page : Nat) {i : Nat} (slot : i < 32) (cb : Nat) : TlsState where
  tlspage := some page
  tlsmask := s.tlsmask ||| (tlsWindow cb <<< i)
  tlsallocs := s.tlsallocs.set i cb

/-- A request that fails its checks, or finds no page, changes nothing. -/
theorem tlsStep_alloc_refused {s : TlsBooks} {cb : Nat} {wanted : Bool} {initTLSPage : Option Nat}
    (refused : 8 < cb ∨ wanted = false ∨ tlsEnsurePage s.tls initTLSPage = none) :
    ∃ ret, tlsStep s (.alloc cb wanted initTLSPage) = some (s, ret, none) ∧ ret ≠ .noError ∧
      (ret = .errorNotEnoughMemory → tlsEnsurePage s.tls initTLSPage = none) := by
  -- The three refusals are tried in the order the source tries them.
  by_cases large : 8 < cb
  · exact ⟨.errorInvalidParameter, by simp [tlsStep, dosAllocThreadLocalMemory, large], by decide,
      fun same => by cases same⟩
  cases wanted with
  | false =>
    exact ⟨.errorInvalidParameter, by simp [tlsStep, dosAllocThreadLocalMemory, large], by decide,
      fun same => by cases same⟩
  | true =>
    have missing : tlsEnsurePage s.tls initTLSPage = none := by simpa [large] using refused
    exact ⟨.errorNotEnoughMemory, by simp [tlsStep, dosAllocThreadLocalMemory, large, missing],
      by decide, fun _ => missing⟩

/-- A request that passes its checks is decided by the search alone. -/
theorem tlsStep_alloc {s : TlsBooks} {cb page : Nat} {initTLSPage : Option Nat} (small : cb ≤ 8)
    (paged : tlsEnsurePage s.tls initTLSPage = some page) :
    tlsStep s (.alloc cb true initTLSPage) =
      if slot : tlsFind s.tls.tlsmask cb < 32 then
        if s.tls.tlsallocs[tlsFind s.tls.tlsmask cb] = 0 then
          some (⟨tlsGrant s.tls page slot cb, ⟨tlsFind s.tls.tlsmask cb, cb⟩ :: s.live⟩,
            .noError, some (page + 4 * tlsFind s.tls.tlsmask cb))
        else none
      else some (⟨{ s.tls with tlspage := some page }, s.live⟩, .errorNotEnoughMemory, none) := by
  -- What remains is whether a window was found and whether its first slot has a length.
  have checked : ¬ 8 < cb := by omega
  simp only [tlsStep, dosAllocThreadLocalMemory, checked, if_false, Bool.not_true, paged]
  by_cases slot : tlsFind s.tls.tlsmask cb < 32
  · by_cases unused : s.tls.tlsallocs[tlsFind s.tls.tlsmask cb] = 0
    · simp [slot, unused, tlsSlotOf_add page slot, tlsGrant]
    · simp [slot, unused]
  · simp [slot]

/-- Handing out a free run keeps the books in order. -/
theorem TlsGood.grant {s : TlsBooks} (good : TlsGood s) {page i cb : Nat} (small : cb ≤ 8)
    (slot : i < 32) (free : TlsRunFree s.tls.tlsmask i cb)
    (fresh : ∀ b ∈ s.live, b.first = i → b.count = cb) (empty : cb = 0 → i = 0) :
    TlsGood ⟨tlsGrant s.tls page slot cb, ⟨i, cb⟩ :: s.live⟩ := by
  -- The new block is compared with the old ones through the mask, which is their union.
  -- The mask gains exactly the bits of the window.
  have bit : ∀ j < 32, (tlsGrant s.tls page slot cb).tlsmask.getLsbD j = true ↔
      s.tls.tlsmask.getLsbD j = true ∨ (i ≤ j ∧ j < i + cb) := by
    intro j inside
    simp only [tlsGrant, BitVec.getLsbD_or, tlsWindow_bit small, inside, true_and,
      Bool.or_eq_true, decide_eq_true_eq]
  constructor
  case paged => intro absent; cases absent
  case disjoint =>
    refine List.pairwise_cons.mpr ⟨?_, good.disjoint⟩
    -- A slot of the new block was free, and a slot of an old block was taken.
    intro b member j new old
    have inside : j < 32 := by have := good.inside b member; have := old.2; omega
    have taken := (good.mask j inside).mpr ⟨b, member, old⟩
    exact absurd (taken.symm.trans (free.2 j inside new.1 new.2)) (by decide)
  case inside =>
    intro b member
    rcases List.mem_cons.mp member with same | member
    · exact same ▸ free.1
    · exact good.inside b member
  case mask =>
    intro j inside
    rw [bit j inside, good.mask j inside]
    simp only [List.mem_cons, exists_eq_or_imp, TlsBlock.Covers]
    exact Or.comm
  case lengths =>
    intro b member
    by_cases same : b.first = i
    · -- A block that heads the same slot has the same length.
      have count : b.count = cb := by
        rcases List.mem_cons.mp member with new | member
        · exact new ▸ rfl
        · exact fresh b member same
      simp [tlsGrant, same, count, slot]
    · -- Every other length is as it was.
      have member : b ∈ s.live := by
        rcases List.mem_cons.mp member with new | member
        · exact absurd (new ▸ rfl) same
        · exact member
      simpa [tlsGrant, Vector.getElem?_set_ne slot (Ne.symm same)] using good.lengths b member
  case elsewhere =>
    intro j inside other
    -- A slot that heads no block now did not head one before.
    have different : i ≠ j := other ⟨i, cb⟩ List.mem_cons_self
    have before := good.elsewhere j inside fun b member => other b (List.mem_cons_of_mem _ member)
    simpa [tlsGrant, Vector.getElem?_set_ne slot different] using before
  case empties =>
    intro b member none_counted
    rcases List.mem_cons.mp member with same | member
    · subst same; exact empty none_counted
    · exact good.empties b member none_counted
  case sizes =>
    intro b member
    rcases List.mem_cons.mp member with same | member
    · exact same ▸ small
    · exact good.sizes b member

/-- The slot state after the block was given back. -/
def tlsRelease (s : TlsState) (block : TlsBlock) (slot : block.first < 32) : TlsState :=
  { s with
    tlsmask := s.tlsmask &&& ~~~(tlsWindow block.count <<< block.first)
    tlsallocs := s.tlsallocs.set block.first 0 }

/-- A release clears exactly the slots of its block. -/
theorem tlsRelease_bit (s : TlsState) {block : TlsBlock} (slot : block.first < 32)
    (small : block.count ≤ 8) {j : Nat} (inside : j < 32) :
    (tlsRelease s block slot).tlsmask.getLsbD j = true ↔
      s.tlsmask.getLsbD j = true ∧ ¬ block.Covers j := by
  -- The mask loses exactly the bits under the window of the block.
  simp only [tlsRelease, BitVec.getLsbD_and, BitVec.getLsbD_not, tlsWindow_bit small, inside,
    decide_true, true_and, Bool.true_and, Bool.and_eq_true, Bool.not_eq_true',
    decide_eq_false_iff_not,
    TlsBlock.Covers]

/-- Releasing a block of at least one slot passes the assertion and clears the block. -/
theorem tlsStep_free {s : TlsBooks} (good : TlsGood s) {block : TlsBlock} (member : block ∈ s.live)
    (positive : 0 < block.count) :
    ∃ slot : block.first < 32, tlsStep s (.free block) =
      some (⟨tlsRelease s.tls block slot, s.live.erase block⟩, .noError, none) := by
  -- The length table has the length of the block, so the source shifts the same window.
  have small := good.sizes block member
  have slot : block.first < 32 := by have := good.inside block member; omega
  have counted : s.tls.tlsallocs[block.first] = block.count := by
    have := good.lengths block member
    rwa [Vector.getElem?_eq_getElem slot, Option.some.injEq] at this
  -- Every bit under the window belongs to the block, so the mask has it.
  have owned : s.tls.tlsmask &&& (tlsWindow block.count <<< block.first) =
      tlsWindow block.count <<< block.first := by
    apply BitVec.eq_of_getLsbD_eq
    intro j inside
    simp only [BitVec.getLsbD_and, tlsWindow_bit small]
    by_cases covered : block.first ≤ j ∧ j < block.first + block.count
    · simp only [(good.mask j inside).mpr ⟨block, member, covered⟩, Bool.true_and]
    · simp only [covered, and_false, decide_false, Bool.and_false]
  cases page : s.tls.tlspage with
  -- Without a page nothing was ever handed out.
  | none => simp [good.paged page] at member
  | some base =>
    refine ⟨slot, ?_⟩
    simp only [tlsStep, dosFreeThreadLocalMemory, page, Option.getD_some,
      tlsSlotOf_add _ slot, slot,
      dif_pos, counted, positive, if_pos, owned, tlsRelease]

/-- A block of no slots is never found again, and its release changes nothing. -/
theorem tlsStep_free_empty {s : TlsBooks} (good : TlsGood s) {block : TlsBlock}
    (member : block ∈ s.live) (empty : block.count = 0) :
    tlsStep s (.free block) = some (s, .errorInvalidParameter, none) := by
  have first := good.empties block member empty
  -- The length table has no slots at slot 0, so the source refuses.
  have counted : s.tls.tlsallocs[0] = 0 := by
    have := good.lengths block member
    rwa [first, empty, Vector.getElem?_eq_getElem (by omega), Option.some.injEq] at this
  cases page : s.tls.tlspage with
  -- Without a page nothing was ever handed out.
  | none => simp [good.paged page] at member
  | some base =>
    have slot : tlsSlotOf base base = 0 := by simpa using tlsSlotOf_add base (i := 0) (by omega)
    simp [tlsStep, dosFreeThreadLocalMemory, page, first, slot, counted]

/-- Giving back a block keeps the books in order. -/
theorem TlsGood.release {s : TlsBooks} (good : TlsGood s) {block : TlsBlock}
    (member : block ∈ s.live)
    (slot : block.first < 32) (positive : 0 < block.count) :
    TlsGood ⟨tlsRelease s.tls block slot, s.live.erase block⟩ := by
  have small := good.sizes block member
  have kept : ∀ b ∈ s.live.erase block, b ∈ s.live := fun b => List.mem_of_mem_erase
  -- Every block that stays is disjoint from the one that goes.
  have apart : ∀ b ∈ s.live.erase block, ∀ j, block.Covers j → ¬ b.Covers j := by
    have symmetric : ∀ {a b : TlsBlock}, (∀ j, a.Covers j → ¬ b.Covers j) →
        ∀ j, b.Covers j → ¬ a.Covers j := fun away j left right => away j right left
    have reordered := ((List.perm_cons_erase member).pairwise_iff symmetric).mp good.disjoint
    exact (List.pairwise_cons.mp reordered).1
  -- A block at the same first slot has no slots, or it would overlap.
  have elsewhere_first : ∀ b ∈ s.live.erase block, b.first = block.first → b.count = 0 := by
    intro b stays same
    by_contra counted
    exact apart b stays block.first ⟨by omega, by omega⟩ ⟨by omega, by omega⟩
  constructor
  case paged =>
    intro absent
    have := good.paged absent
    simp [this] at member
  case disjoint => exact good.disjoint.sublist List.erase_sublist
  case inside => exact fun b stays => good.inside b (kept b stays)
  case mask =>
    intro j inside
    rw [tlsRelease_bit s.tls slot small inside, good.mask j inside]
    constructor
    · -- A slot that stays taken belongs to another block.
      rintro ⟨⟨b, listed, covers⟩, away⟩
      have other : b ≠ block := fun same => away (same ▸ covers)
      exact ⟨b, (List.mem_erase_of_ne other).mpr listed, covers⟩
    · -- A slot of another block is not one of the block released.
      rintro ⟨b, stays, covers⟩
      exact ⟨⟨b, kept b stays, covers⟩, fun gone => apart b stays j gone covers⟩
  case lengths =>
    intro b stays
    by_cases same : b.first = block.first
    · simp [tlsRelease, same, elsewhere_first b stays same, slot]
    · simpa [tlsRelease, Vector.getElem?_set_ne slot (Ne.symm same)] using
        good.lengths b (kept b stays)
  case elsewhere =>
    intro j inside other
    by_cases same : block.first = j
    · subst same; simp [tlsRelease, slot]
    · -- The block released heads another slot, so nobody headed this one.
      have before : ∀ b ∈ s.live, b.first ≠ j := by
        intro b listed
        by_cases gone : b = block
        · exact gone ▸ same
        · exact other b ((List.mem_erase_of_ne gone).mpr listed)
      simpa [tlsRelease, Vector.getElem?_set_ne slot same] using good.elsewhere j inside before
  case empties => exact fun b stays => good.empties b (kept b stays)
  case sizes => exact fun b stays => good.sizes b (kept b stays)

/-- With the books in order and no page mapped, every slot is free. -/
theorem TlsGood.unpaged_free {s : TlsBooks} (good : TlsGood s) (absent : s.tls.tlspage = none)
    {j : Nat} (inside : j < 32) : s.tls.tlsmask.getLsbD j = false := by
  -- A taken slot belongs to a live block, and without a page there is none.
  by_contra taken
  obtain ⟨b, member, _⟩ := (good.mask j inside).mp (by simpa using taken)
  simp [good.paged absent] at member

/-- The position the search grants is at the head of no other live block. -/
theorem tlsFind_fresh {s : TlsBooks} (good : TlsGood s) {cb : Nat}
    (positive : 0 < cb) (free : TlsRunFree s.tls.tlsmask (tlsFind s.tls.tlsmask cb) cb)
    (no_takeover : ⟨0, 0⟩ ∈ s.live → ¬ TlsRunFree s.tls.tlsmask 0 cb) :
    ∀ b ∈ s.live, b.first ≠ tlsFind s.tls.tlsmask cb := by
  intro b member same
  by_cases empty : b.count = 0
  · -- An empty block sits at slot 0, which the condition keeps from being granted.
    have first := good.empties b member empty
    have zero : b = ⟨0, 0⟩ := by cases b; simp_all
    exact no_takeover (zero ▸ member) (by rw [← same, first] at free; exact free)
  · -- A block with slots has taken its first one, which the search found free.
    have inside := good.inside b member
    have taken := (good.mask b.first (by omega)).mpr ⟨b, member, ⟨Nat.le_refl _, by omega⟩⟩
    exact absurd (taken.symm.trans (free.2 b.first (by omega) (by omega) (by omega))) (by decide)

/-- A search for no slots stops at once. -/
theorem tlsFind_zero (tlsmask : BitVec 32) : tlsFind tlsmask 0 = 0 := by
  -- The empty window is clear wherever it stands.
  have small : 0 ≤ 8 := by omega
  by_contra later
  exact (tlsFind_spec small tlsmask).2.1 0 (by omega) fun j _ low high => by omega

/-- A search that found nothing has passed every free run. -/
theorem tlsFind_missed {cb : Nat} (small : cb ≤ 8) (positive : 0 < cb) {tlsmask : BitVec 32}
    (missed : ¬ tlsFind tlsmask cb < 32) (i : Nat) : ¬ TlsRunFree tlsmask i cb := by
  -- A free run inside the mask is a clear window that the search would have stopped at.
  intro free
  have fits := free.1
  exact (tlsFind_spec small tlsmask).2.1 i (by omega) free.clear

/-- A free run at the very first slots is the one the search grants. -/
theorem tlsFind_first {cb : Nat} (small : cb ≤ 8) {tlsmask : BitVec 32}
    (free : TlsRunFree tlsmask 0 cb) : tlsFind tlsmask cb = 0 := by
  -- The search cannot pass the first position when the window there is clear.
  by_contra later
  exact (tlsFind_spec small tlsmask).2.1 0 (by omega) free.clear

/-- A request that left the books in order was one the search serves. -/
theorem TlsGood.servable {s t : TlsBooks} {cb page : Nat} {initTLSPage : Option Nat}
    {out : ApiRet × Option Nat} (small : cb ≤ 8)
    (paged : tlsEnsurePage s.tls initTLSPage = some page)
    (stepped : tlsStep s (.alloc cb true initTLSPage) = some (t, out)) (after : TlsGood t) :
    TlsServable s (.alloc cb true initTLSPage) := by
  rw [tlsStep_alloc small paged] at stepped
  by_cases slot : tlsFind s.tls.tlsmask cb < 32
  · by_cases unused : s.tls.tlsallocs[tlsFind s.tls.tlsmask cb] = 0
    · simp only [slot, unused, dif_pos, if_pos, Option.some.injEq, Prod.mk.injEq] at stepped
      obtain ⟨rfl, -⟩ := stepped
      have fits := after.inside _ List.mem_cons_self
      -- The length table still has to name the blocks that were live before.
      have named : ∀ b ∈ s.live, b.first = tlsFind s.tls.tlsmask cb → b.count = cb := by
        intro b member same
        have := after.lengths b (List.mem_cons_of_mem _ member)
        simpa [tlsGrant, same, slot, eq_comm] using this
      -- A request for no slots is granted slot 0, any other a window of its length.
      rcases Nat.eq_zero_or_pos cb with none_asked | positive
      · subst none_asked
        rw [tlsFind_zero] at named
        exact Or.inr (Or.inr (Or.inr (Or.inl ⟨rfl, named⟩)))
      · have clear := (tlsFind_spec small s.tls.tlsmask).2.2 slot
        refine Or.inr (Or.inr (Or.inr (Or.inr ⟨positive, Or.inl ⟨_, fits, clear⟩, ?_⟩)))
        intro member free
        have := named ⟨0, 0⟩ member (tlsFind_first small free).symm
        simp only at this
        omega
    · simp [slot, unused] at stepped
  · -- The search found nothing, so at least one slot was asked for.
    have positive : 0 < cb := by
      by_contra none_asked
      have : cb = 0 := by omega
      subst this
      exact slot (by rw [tlsFind_zero]; omega)
    have none_free := tlsFind_missed small positive slot
    refine Or.inr (Or.inr (Or.inr (Or.inr ⟨positive, Or.inr ?_, fun _ => none_free 0⟩)))
    -- With the last slot free, the search would have stopped at the edge.
    by_contra last
    exact slot (tlsFind_over_edge small none_free (by simpa using last)).1

/-- A servable request is granted from free slots, or refused with nothing changed. -/
theorem TlsGood.served {s : TlsBooks} (good : TlsGood s) {cb page : Nat} {initTLSPage : Option Nat}
    (small : cb ≤ 8) (paged : tlsEnsurePage s.tls initTLSPage = some page)
    (servable : TlsServable s (.alloc cb true initTLSPage)) :
    ∃ t out, tlsStep s (.alloc cb true initTLSPage) = some (t, out) ∧
      TlsDone s (.alloc cb true initTLSPage) t out ∧ TlsGood t := by
  -- What is granted is free, at the head of no block with a length, and inside the mask.
  have granted : ∀ slot : tlsFind s.tls.tlsmask cb < 32,
      TlsRunFree s.tls.tlsmask (tlsFind s.tls.tlsmask cb) cb →
      (∀ b ∈ s.live, b.first = tlsFind s.tls.tlsmask cb → b.count = 0 ∧ cb = 0) →
      ∃ t out, tlsStep s (.alloc cb true initTLSPage) = some (t, out) ∧
        TlsDone s (.alloc cb true initTLSPage) t out ∧ TlsGood t := by
    intro slot free fresh
    have unused : s.tls.tlsallocs[tlsFind s.tls.tlsmask cb] = 0 := by
      rw [← Option.some.injEq, ← Vector.getElem?_eq_getElem slot]
      -- A block that heads the slot has no length, and otherwise the table has none.
      by_cases headed : ∃ b ∈ s.live, b.first = tlsFind s.tls.tlsmask cb
      · obtain ⟨b, member, same⟩ := headed
        rw [← same, good.lengths b member, (fresh b member same).1]
      · exact good.elsewhere _ slot fun b member same => headed ⟨b, member, same⟩
    rw [tlsStep_alloc small paged, dif_pos slot, if_pos unused]
    refine ⟨_, _, rfl, ⟨fun _ => ?_, fun failed => absurd rfl failed⟩, ?_⟩
    · refine ⟨_, page, rfl, rfl, rfl, rfl, fun j covered => ?_⟩
      have inside : j < 32 := by have := free.1; have := covered.2; simp only at this; omega
      exact free.2 j inside covered.1 covered.2
    · refine good.grant small slot free ?_ ?_
      · exact fun b member same => by have := fresh b member same; omega
      · intro none_asked; subst none_asked; exact tlsFind_zero _
  -- The condition names five kinds of requests, three of which never get here.
  rcases servable with large | unasked | missing | ⟨none_asked, empties⟩ |
    ⟨positive, runs, no_takeover⟩
  · omega
  · cases unasked
  · simp [missing] at paged
  · subst none_asked
    have first := tlsFind_zero s.tls.tlsmask
    refine granted (by omega) ⟨by omega, fun j _ low high => by omega⟩ ?_
    exact fun b member same => ⟨empties b member (same.trans first), rfl⟩
  · by_cases slot : tlsFind s.tls.tlsmask cb < 32
    · -- A window inside the mask is granted.
      have free := tlsFind_fits small runs slot
      have fresh := tlsFind_fresh good positive free no_takeover
      exact granted slot free fun b member same => absurd same (fresh b member)
    · have none_free := tlsFind_missed small positive slot
      -- A page was in use before, or every slot would have been free.
      have used : s.tls.tlspage = some page := by
        cases before : s.tls.tlspage with
        | none =>
          exact absurd ⟨by omega, fun j inside _ _ => good.unpaged_free before inside⟩ (none_free 0)
        | some _ => simpa [tlsEnsurePage, before] using paged
      have same : (⟨{ s.tls with tlspage := some page }, s.live⟩ : TlsBooks) = s := by
        rw [← used]
      rw [tlsStep_alloc small paged, dif_neg slot, same]
      exact ⟨_, _, rfl, ⟨fun granted => ApiRet.noConfusion granted,
        fun _ => ⟨rfl, fun _ _ => none_free⟩⟩, good⟩

/-- One call from orderly books does what it should exactly when the search serves it. -/
theorem tlsStep_exact {s : TlsBooks} {call : TlsCall} (good : TlsGood s) (may : TlsMay s call) :
    (∃ t out, tlsStep s call = some (t, out) ∧ TlsDone s call t out ∧ TlsGood t) ↔
      TlsServable s call := by
  cases call with
  | alloc cb wanted initTLSPage =>
    by_cases refused : 8 < cb ∨ wanted = false ∨ tlsEnsurePage s.tls initTLSPage = none
    · -- A refused request is always served correctly: nothing changes.
      obtain ⟨ret, stepped, failed, reason⟩ := tlsStep_alloc_refused refused
      refine ⟨fun _ => by unfold TlsServable; tauto, fun _ => ⟨s, _, stepped, ?_, good⟩⟩
      refine ⟨fun succeeded => absurd succeeded failed, fun _ => ⟨rfl, fun lacking paged => ?_⟩⟩
      simp [reason lacking] at paged
    · -- Any other request is decided by the search.
      simp only [not_or, Nat.not_lt, Bool.not_eq_false, Option.ne_none_iff_exists'] at refused
      obtain ⟨small, rfl, page, paged⟩ := refused
      exact ⟨fun ⟨_, _, stepped, _, after⟩ => TlsGood.servable small paged stepped after,
        good.served small paged⟩
  | free block =>
    refine ⟨fun _ => trivial, fun _ => ?_⟩
    -- A release is always served: an empty block is refused and changes nothing.
    rcases Nat.eq_zero_or_pos block.count with empty | positive
    · refine ⟨s, _, tlsStep_free_empty good may empty, ?_, good⟩
      intro j _
      refine ⟨fun taken => ⟨taken, fun covered => ?_⟩, And.left⟩
      have := covered.1
      have := covered.2
      omega
    · obtain ⟨slot, stepped⟩ := tlsStep_free good may positive
      refine ⟨_, _, stepped, ?_, good.release may slot positive⟩
      exact fun j inside => tlsRelease_bit s.tls slot (good.sizes block may) inside

/-- The empty mask has no live blocks. -/
theorem tlsGood_empty : TlsGood {} := by
  constructor
  case elsewhere => intro j inside _; simp [inside]
  all_goals simp

/--
A run of thread-local calls keeps the books in order exactly when the search serves each of its
requests.

In order means that live blocks are disjoint and inside the mask, the mask is their union, the
length table holds each length at the first slot, a grant returns free slots, a refusal changes
nothing, and a release clears the bits of its block without tripping the assertion.
-/
theorem tls_run_good_iff {calls : List TlsCall} (issued : Runs.Each tlsStep TlsMay {} calls) :
    Runs.StaysGood tlsStep TlsGood TlsDone {} calls ↔ Runs.Each tlsStep TlsServable {} calls :=
  Runs.staysGood_iff_each (fun _ _ => tlsStep_exact) tlsGood_empty issued

/-- Blocks of three and two slots, the first of them given back and its room used again. -/
def tlsPlainCalls : List TlsCall :=
  [.alloc 3 true (some 4096), .alloc 2 true none, .free ⟨0, 3⟩, .alloc 1 true none]

/-- A plain run of requests and releases keeps its books in order. -/
theorem tls_plain_run_good : Runs.StaysGood tlsStep TlsGood TlsDone {} tlsPlainCalls :=
  (tls_run_good_iff (by decide +kernel)).mpr (by decide +kernel)

/-- All slots but the last are taken, and then two slots are asked for. -/
def tlsEdgeCalls : List TlsCall :=
  [.alloc 8 true (some 4096), .alloc 8 true none, .alloc 8 true none, .alloc 7 true none,
    .alloc 2 true none]

/--
A window cut off by the edge of the mask passes the test, and a block beyond the last slot is
granted.
-/
theorem tls_edge_run_not_good :
    Runs.Each tlsStep TlsMay {} tlsEdgeCalls ∧
      ¬ Runs.StaysGood tlsStep TlsGood TlsDone {} tlsEdgeCalls := by
  refine ⟨by decide +kernel, fun stays => ?_⟩
  -- A run that stayed good would end with its last block inside the mask.
  obtain ⟨t, ran⟩ := stays.ran
  have last : (Runs.runFrom tlsStep {} tlsEdgeCalls).map (·.live.head?) = some (some ⟨31, 2⟩) := by
    decide +kernel
  rw [ran, Option.map_some, Option.some.injEq] at last
  have member := List.mem_of_mem_head? last
  -- The granted block ends at slot 33.
  have := (stays.finish ran).inside _ member
  simp only at this
  omega

end TwoIne
