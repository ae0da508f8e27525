import TwoIne.LxLoader.PackTokens
import TwoIne.Proofs.LxLoader.ExePack

/-! A page is unpacked to what its tokens say, if none of them repeats what is not there yet. -/

namespace TwoIne

open Buffers Regions Lz

/-- What a token does to a page: where it goes on, and what is known of the page by then. -/
structure PackPlace.Follows (place : PackPlace) (dstlen : Nat) (tokens : List (Token UInt8))
    (after : PackPlace) : Prop where
  placed : placeAll dstlen place.target tokens = some after.target
  known : ∀ out : List UInt8, out.length = place.target → out <+: contents place.dst →
    ∀ final, expand out tokens = some final → final <+: contents after.dst

/-- The decoder does what the tokens that are read say, or refuses them as they do not fit. -/
structure PackPlace.Agrees (place : PackPlace) (dstlen : Nat)
    (tokens : Option (List (Token UInt8) × Nat)) (unpacked : Except PackEnd PackState) :
    Prop where
  refused : unpacked = .error .refused →
    ∀ read next, tokens = some (read, next) → placeAll dstlen place.target read = none
  unpacked : ∀ after : PackPlace, unpacked = .ok (after.held exactInts) →
    ∃ read, tokens = some (read, after.source) ∧ place.Follows dstlen read after

/-- An access that is needed was inside of its buffer, unless this is the answer. -/
theorem inside_bind {α β : Type} {access : Option α} {use : α → Except PackEnd β}
    {answer : Except PackEnd β} (result : (inside access >>= use) = answer)
    (other : answer ≠ .error .outside) :
    ∃ value, access = some value ∧ use value = answer := by
  cases access with
  | none => exact absurd result.symm other
  | some value => exact ⟨value, rfl, result⟩

/-- What is moved within the page is what is repeated. -/
theorem linearmove_known {dst after : Buffer} {out final : List UInt8} {distance count : Nat}
    (known : out <+: contents dst) (reached : distance ≤ out.length)
    (moved : linearmove dst out.length ((out.length : Int) - distance) count = some after)
    (copied : copyBack distance out count = some final) : final <+: contents after := by
  let outputs : Nat → List UInt8 := fun index => (copyBack distance out index).getD []
  have finish : outputs count = final := by simp only [outputs, copied, Option.getD_some]
  have output : ∀ index ≤ count, copyBack distance out index = some (outputs index) := by
    -- A repetition has been made up to every count below its own.
    intro index below
    obtain ⟨middle, made⟩ := copyBack_shorter copied below
    simp only [outputs, made, Option.getD_some]
  rw [← finish]
  refine (storeEach_known outputs moved known ?_).2
  intro filled index below filled_known value got
  have length := copyBack_length (output index (by omega))
  -- What is read next is what lies at the distance from what was written last.
  obtain ⟨next, found, added⟩ :=
    copyBack_next (output index (by omega)) (output (index + 1) (by omega))
  have place : ((out.length : Int) - distance) + index =
      ((outputs index).length - distance : Nat) := by
    omega
  have inside : (outputs index).length - distance < (outputs index).length := by
    by_contra zero
    rw [lookBack, if_pos (by omega), List.getElem?_eq_none (by omega)] at found
    cases found
  rw [lookBack, if_pos (by omega)] at found
  rw [place, fetch_known filled_known inside, found] at got
  rw [added, Option.some.inj got]

section Tokens

variable {src : Region} {dstlen : Nat} {place : PackPlace}

/-- With integers that are what they say, so are the checks of the source. -/
theorem avail_exact (src : Region) (place : PackPlace) (n : Nat) :
    srcavail exactInts src.bytes.length (place.held exactInts).sOf n ↔
      place.source + n ≤ src.bytes.length := by
  change (place.source : Int) + n ≤ src.bytes.length ↔ _
  omega

/-- With integers that are what they say, so are the checks of the page. -/
theorem room_exact (dstlen : Nat) (place : PackPlace) (n : Nat) :
    dstavail exactInts dstlen (place.held exactInts).dOf n ↔ place.target + n ≤ dstlen := by
  change (place.target : Int) + n ≤ dstlen ↔ _
  omega

/-- What is copied from the source is what the token says. -/
theorem copied_known {dst after : Buffer} {out : List UInt8} {i count : Nat}
    (available : i + count ≤ src.bytes.length) (known : out <+: contents dst)
    (stored : memcpy dst out.length (sourceAt src) i count = some after) :
    out ++ packBytes src.bytes i count <+: contents after := by
  have length : (packBytes src.bytes i count).length = count := by
    simp only [packBytes, List.length_take, List.length_drop]
    omega
  apply memcpy_known known _ (length.symm ▸ stored)
  intro index below
  rw [← Int.natCast_add, sourceAt_index (by omega), packBytes, List.getElem?_take_of_lt (by omega),
    List.getElem?_drop, List.getD_eq_getElem?_getD, List.getElem?_eq_getElem (by omega)]
  rfl

/-- The bytes that a token says are as many as it says. -/
theorem packBytes_length (src : Region) (i count : Nat) (available : i + count ≤ src.bytes.length) :
    (packBytes src.bytes i count).length = count := by
  simp only [packBytes, List.length_take, List.length_drop]
  omega

/-- Where a place is that is stored with integers that are what they say. -/
theorem held_exact {after : PackPlace} (i made : Nat) (dst : Buffer)
    (reached : (⟨i, made, dst⟩ : PackState) = after.held exactInts) :
    after = ⟨i, made, dst⟩ := by
  obtain ⟨source, target, page⟩ := after
  simp only [PackPlace.held, exactInts, PackState.mk.injEq, Int.natCast_inj] at reached
  rw [reached.1, reached.2.1, reached.2.2]

/-- Bytes of both kinds are unpacked as the tokens say. -/
theorem mixed_agrees (place : PackPlace) (count distance more : Nat) :
    place.Agrees dstlen (mixedTokens src.bytes place.source count distance more)
      (unpackMixed exactInts dstlen src src.bytes.length (place.held exactInts) count more
        distance) := by
  have back : 0 ≤ exactInts.sint (exactInts.sint ((place.held exactInts).dOf + count) - distance) ↔
      distance ≤ place.target + count := by
    change 0 ≤ (place.target : Int) + count - distance ↔ _
    omega
  have checks := and_congr (avail_exact src place count)
    (and_congr (room_exact dstlen place (count + more)) back)
  unfold unpackMixed mixedTokens
  by_cases fits : place.source + count ≤ src.bytes.length ∧
      place.target + (count + more) ≤ dstlen ∧ distance ≤ place.target + count
  · rw [if_pos (checks.mpr fits), if_pos fits.1]
    obtain ⟨available, room, reached⟩ := fits
    have length := packBytes_length src _ _ available
    constructor
    · -- Nothing that is left to do refuses the token.
      intro refused
      obtain ⟨copied, _, refused⟩ := inside_bind refused (by simp)
      obtain ⟨moved, _, refused⟩ := inside_bind refused (by simp)
      cases refused
    · intro after unpacked
      obtain ⟨copied, stored, unpacked⟩ := inside_bind unpacked (by simp)
      obtain ⟨dst, moved, unpacked⟩ := inside_bind unpacked (by simp)
      have reached_eq : (⟨(place.source + count : Nat), (place.target + count + more : Nat), dst⟩ :
          PackState) = after.held exactInts := by
        rw [← Except.ok.inj unpacked]
        simp [exactInts, PackPlace.held]
      obtain rfl := held_exact _ _ _ reached_eq
      refine ⟨_, rfl, ?_, ?_⟩
      · rw [placeAll_pair, length, if_pos ⟨room, reached⟩]
      · intro out out_length known final expanded
        rw [expand_pair] at expanded
        have target : (place.held exactInts).dOf = out.length := by
          rw [out_length]
          rfl
        have literal := copied_known available known (target ▸ stored)
        have behind : exactInts.sint ((place.held exactInts).dOf + count) =
            (out ++ packBytes src.bytes place.source count).length := by
          rw [target, List.length_append, length, Int.natCast_add]
          rfl
        rw [behind] at moved
        exact linearmove_known literal (by rw [List.length_append, length]; omega) moved expanded
  · rw [if_neg (mt checks.mp fits)]
    constructor
    · intro _ read next taken
      by_cases available : place.source + count ≤ src.bytes.length
      · rw [if_pos available] at taken
        obtain ⟨rfl, _⟩ := Prod.mk.inj (Option.some.inj taken)
        have length := packBytes_length src _ _ available
        rw [placeAll_pair, length, if_neg (fun placed => fits ⟨available, placed⟩)]
      · rw [if_neg available] at taken
        cases taken
    · intro after unpacked
      cases unpacked

/-- A place behind the first bytes of a token says the same as the place itself. -/
theorem PackPlace.Agrees.behind {n : Nat} {tokens : Option (List (Token UInt8) × Nat)}
    {unpacked : Except PackEnd PackState}
    (agrees :
      ({ place with source := place.source + n } : PackPlace).Agrees dstlen tokens unpacked) :
    place.Agrees dstlen tokens unpacked where
  refused := agrees.refused
  unpacked := by
    intro after reached
    obtain ⟨read, said, follows⟩ := agrees.unpacked after reached
    exact ⟨read, said, follows.placed, follows.known⟩

/-- A token that cannot be read is refused. -/
theorem agrees_refused (place : PackPlace) : place.Agrees dstlen none (.error .refused) where
  refused := by
    intro _ read next taken
    cases taken
  unpacked := by
    intro after reached
    cases reached

/-- A token that does not fit is refused. -/
theorem agrees_unplaced {token : Token UInt8} {next : Nat} (place : PackPlace)
    (unplaced : token.place dstlen place.target = none) :
    place.Agrees dstlen (some ([token], next)) (.error .refused) where
  refused := by
    intro _ read behind taken
    obtain ⟨rfl, _⟩ := Prod.mk.inj (Option.some.inj taken)
    rw [placeAll_single, unplaced]
  unpacked := by
    intro after reached
    cases reached

/-- A token that fits is unpacked by the access that writes what it expands to. -/
theorem agrees_placed {token : Token UInt8} {next made : Nat} (place : PackPlace)
    {access : Option Buffer} (placed : token.place dstlen place.target = some made)
    (known : ∀ dst : Buffer, access = some dst → ∀ out : List UInt8, out.length = place.target →
      out <+: contents place.dst → ∀ final, expandToken out token = some final →
        final <+: contents dst) :
    place.Agrees dstlen (some ([token], next))
      (inside access >>= fun dst => .ok ⟨next, made, dst⟩) where
  refused := by
    intro refused
    obtain ⟨dst, _, refused⟩ := inside_bind refused (by simp)
    cases refused
  unpacked := by
    intro after unpacked
    obtain ⟨dst, stored, unpacked⟩ := inside_bind unpacked (by simp)
    obtain rfl := held_exact _ _ _ (Except.ok.inj unpacked)
    refine ⟨_, rfl, by rw [placeAll_single, placed], ?_⟩
    intro out out_length out_known final expanded
    rw [expand_single] at expanded
    exact known dst stored out out_length out_known final expanded

/-- A run is unpacked as its token says. -/
theorem run_agrees (place : PackPlace) :
    place.Agrees dstlen (runTokens src.bytes place.source)
      (unpackRun exactInts dstlen src src.bytes.length (place.held exactInts)) := by
  unfold unpackRun runTokens
  by_cases two : place.source + 2 ≤ src.bytes.length
  swap
  · rw [if_neg (mt (avail_exact _ _ _).mp two), if_neg two]
    exact agrees_refused place
  have counted : srcByte src (exactInts.sint ((place.held exactInts).sOf + 1)) =
      .ok (packByte src.bytes (place.source + 1)) :=
    srcByte_behind exactInts_sound place 1 (by omega)
  rw [if_pos ((avail_exact _ _ _).mpr two), if_pos two, counted]
  simp only [bind, Except.bind]
  by_cases empty : packByte src.bytes (place.source + 1) = 0
  · -- An empty run says no token.
    rw [if_pos empty, if_pos empty]
    constructor
    · intro refused
      cases refused
    · intro after reached
      obtain rfl := held_exact (place.source + 2) place.target place.dst (Except.ok.inj reached)
      refine ⟨[], rfl, rfl, ?_⟩
      intro out _ known final expanded
      exact Option.some.inj expanded ▸ known
  rw [if_neg empty, if_neg empty]
  have checks := and_congr (avail_exact src place 3)
    (room_exact dstlen place (packByte src.bytes (place.source + 1)))
  by_cases three : place.source + 3 ≤ src.bytes.length
  swap
  · rw [if_neg (fun both => three (checks.mp both).1), if_neg three]
    exact agrees_refused place
  rw [if_pos three]
  by_cases room : place.target + packByte src.bytes (place.source + 1) ≤ dstlen
  swap
  · rw [if_neg (fun both => room (checks.mp both).2)]
    exact agrees_unplaced place (if_neg room)
  have value : sourceAt src (exactInts.sint ((place.held exactInts).sOf + 2)) =
      some (src.bytes.getD (place.source + 2) 0) :=
    sourceAt_held (n := place.source + 2) exactInts_sound (by omega)
  have back : exactInts.sint (exactInts.sint ((place.held exactInts).sOf + 3) - 2) =
      exactInts.sint ((place.held exactInts).sOf + 1) := by
    simp only [exactInts]
    omega
  rw [if_pos (checks.mpr ⟨three, room⟩), value, back, counted]
  have placed : (Token.run (packByte src.bytes (place.source + 1))
      (src.bytes.getD (place.source + 2) 0)).place dstlen place.target = some _ := if_pos room
  apply agrees_placed place placed
  intro dst stored out out_length known final expanded
  rw [← Option.some.inj expanded]
  exact memset_known known (out_length.symm ▸ stored)

/-- Bytes of the source are unpacked as their token says. -/
theorem literal_agrees (place : PackPlace) :
    place.Agrees dstlen (literalTokens src.bytes place.source)
      (unpackLiteral exactInts dstlen src src.bytes.length (place.held exactInts)
        (packByte src.bytes place.source)) := by
  have checks := and_congr
    (avail_exact src place ((packByte src.bytes place.source >>> 2) + 1))
    (room_exact dstlen place (packByte src.bytes place.source >>> 2))
  unfold unpackLiteral literalTokens
  by_cases available : place.source + ((packByte src.bytes place.source >>> 2) + 1) ≤
      src.bytes.length
  swap
  · rw [if_neg (fun both => available (checks.mp both).1), if_neg (by omega)]
    exact agrees_refused place
  have length := packBytes_length src (place.source + 1)
    (packByte src.bytes place.source >>> 2) (by omega)
  rw [if_pos (by omega)]
  by_cases room : place.target + (packByte src.bytes place.source >>> 2) ≤ dstlen
  · rw [if_pos (checks.mpr ⟨available, room⟩)]
    apply agrees_placed place
    · rw [Token.place, length, if_pos room]
    · intro dst stored out out_length known final expanded
      rw [← Option.some.inj expanded]
      exact copied_known (by omega) known (out_length.symm ▸ stored)
  · rw [if_neg (fun both => room (checks.mp both).2)]
    exact agrees_unplaced place (by rw [Token.place, length, if_neg room])

/-- Bytes that are already in the page are unpacked as their token says. -/
theorem repeat_agrees (place : PackPlace) :
    place.Agrees dstlen (repeatTokens src.bytes place.source)
      (unpackRepeat exactInts dstlen src src.bytes.length (place.held exactInts)
        (packByte src.bytes place.source)) := by
  unfold unpackRepeat repeatTokens
  by_cases two : place.source + 2 ≤ src.bytes.length
  swap
  · rw [if_neg (mt (avail_exact _ _ _).mp two), if_neg two]
    exact agrees_refused place
  have word : srcWord exactInts src (place.held exactInts).sOf =
      .ok (packWord src.bytes place.source) :=
    srcWord_held exactInts_sound (by omega)
  rw [if_pos ((avail_exact _ _ _).mpr two), if_pos two, word]
  have back : (0 : Int) ≤ exactInts.sint ((place.held exactInts).dOf -
      (packWord src.bytes place.source >>> 4 : Nat)) ↔
      packWord src.bytes place.source >>> 4 ≤ place.target := by
    change 0 ≤ (place.target : Int) - _ ↔ _
    omega
  have checks := and_congr (room_exact dstlen place
    (((packByte src.bytes place.source >>> 2) &&& 3) + 3)) back
  simp only [bind, Except.bind]
  by_cases fits : place.target + (((packByte src.bytes place.source >>> 2) &&& 3) + 3) ≤ dstlen ∧
      packWord src.bytes place.source >>> 4 ≤ place.target
  · rw [if_pos (checks.mpr fits)]
    have placed : (Token.copy (packWord src.bytes place.source >>> 4)
        (((packByte src.bytes place.source >>> 2) &&& 3) + 3) : Token UInt8).place dstlen
          place.target = some _ := if_pos fits
    apply agrees_placed place placed
    intro dst moved out out_length known final copied
    exact linearmove_known known (by rw [out_length]; exact fits.2) (out_length.symm ▸ moved) copied
  · rw [if_neg (mt checks.mp fits)]
    exact agrees_unplaced place (if_neg fits)

/-- A short token is unpacked as it says. -/
theorem short_agrees (place : PackPlace) :
    place.Agrees dstlen (shortTokens src.bytes place.source)
      (unpackShort exactInts dstlen src src.bytes.length (place.held exactInts)
        (packByte src.bytes place.source)) := by
  unfold unpackShort shortTokens
  by_cases two : place.source + 2 ≤ src.bytes.length
  swap
  · rw [if_neg (mt (avail_exact _ _ _).mp two), if_neg two]
    exact agrees_refused place
  have word : srcWord exactInts src (place.held exactInts).sOf =
      .ok (packWord src.bytes place.source) :=
    srcWord_held exactInts_sound (by omega)
  rw [if_pos ((avail_exact _ _ _).mpr two), if_pos two, word]
  -- What is left of it starts behind its first two bytes.
  exact PackPlace.Agrees.behind (n := 2) (mixed_agrees _ _ _ _)

/-- A long token is unpacked as it says. -/
theorem long_agrees (place : PackPlace) :
    place.Agrees dstlen (longTokens src.bytes place.source)
      (unpackLong exactInts dstlen src src.bytes.length (place.held exactInts)) := by
  unfold unpackLong longTokens
  by_cases three : place.source + 3 ≤ src.bytes.length
  swap
  · rw [if_neg (mt (avail_exact _ _ _).mp three), if_neg three]
    exact agrees_refused place
  have word : srcWord exactInts src (place.held exactInts).sOf =
      .ok (packWord src.bytes place.source) :=
    srcWord_held exactInts_sound (by omega)
  have byte : srcByte src (place.held exactInts).sOf = .ok (packByte src.bytes place.source) :=
    srcByte_held exactInts_sound (by omega)
  have next : srcWord exactInts src (exactInts.sint ((place.held exactInts).sOf + 1)) =
      .ok (packWord src.bytes (place.source + 1)) :=
    srcWord_held (n := place.source + 1) exactInts_sound (by omega)
  rw [if_pos ((avail_exact _ _ _).mpr three), if_pos three, word, byte, next]
  -- What is left of it starts behind its first three bytes.
  exact PackPlace.Agrees.behind (n := 3) (mixed_agrees _ _ _ _)

/-- A token of any kind is unpacked as it says. -/
theorem kind_agrees (place : PackPlace) :
    place.Agrees dstlen (tokensAt src.bytes place.source)
      (unpackKind exactInts dstlen src src.bytes.length (place.held exactInts)
        (packByte src.bytes place.source)) := by
  unfold unpackKind tokensAt
  generalize packByte src.bytes place.source &&& 3 = kind
  match kind with
  | 0 =>
    by_cases zero : packByte src.bytes place.source = 0
    · simp only [if_pos zero]
      exact run_agrees place
    · simp only [if_neg zero]
      exact literal_agrees place
  | 1 => exact short_agrees place
  | 2 => exact repeat_agrees place
  | _ + 3 => exact long_agrees place

/-- A token is unpacked as it says, where the source has one. -/
theorem token_agrees (dstlen : Nat) (place : PackPlace)
    (present : place.source < src.bytes.length) :
    place.Agrees dstlen (tokensAt src.bytes place.source)
      (unpackToken exactInts dstlen src src.bytes.length (place.held exactInts)) := by
  have byte : srcByte src (place.held exactInts).sOf = .ok (packByte src.bytes place.source) :=
    srcByte_held exactInts_sound present
  rw [unpackToken, if_pos ((avail_exact _ _ _).mpr present), byte]
  exact kind_agrees place

/-- Filling up a page puts zeros behind what is known of it. -/
theorem padPage_known (place : PackPlace) {dst : Buffer} {out : List UInt8}
    (out_length : out.length = place.target) (known : out <+: contents place.dst)
    (target_le : place.target ≤ dstlen) (length : dst.length = dstlen)
    (padded : padPage exactInts dstlen (place.held exactInts) = .returned 1 dst) :
    contents dst = out ++ List.replicate (dstlen - out.length) 0 := by
  have left : (exactInts.uint (dstlen - (place.held exactInts).dOf)).toNat =
      dstlen - out.length := by
    change ((dstlen : Int) - place.target).toNat = _
    omega
  rw [padPage, left] at padded
  have whole : (out ++ List.replicate (dstlen - out.length) (0 : UInt8)).length = dstlen := by
    rw [List.length_append, List.length_replicate]
    omega
  have filled : out ++ List.replicate (dstlen - out.length) 0 <+: contents dst := by
    by_cases room : 0 < exactInts.uint (dstlen - (place.held exactInts).dOf)
    · rw [if_pos room] at padded
      cases stored : memset (place.held exactInts).dst (place.held exactInts).dOf 0
          (dstlen - out.length) with
      | none =>
        rw [stored] at padded
        cases padded
      | some after =>
        rw [stored] at padded
        cases padded
        exact memset_known known (out_length.symm ▸ stored)
    · -- Nothing is left to be filled.
      rw [if_neg room] at padded
      cases padded
      have full : dstlen - out.length = 0 := by
        rw [← left]
        omega
      rw [full, List.replicate_zero, List.append_nil]
      exact known
  exact (filled.eq_of_length (by rw [whole, contents_length, length])).symm

/-- What the decoder makes of a page: nothing if its tokens do not fit, and else their bytes. -/
def Unpacks (dstlen : Nat) (place : PackPlace) (tokens : Option (List (Token UInt8))) (ret : Nat)
    (dst : Buffer) : Prop :=
  (ret = 0 ∧ tokens = none) ∨
    (ret = 1 ∧ ∃ read made, tokens = some read ∧
      placeAll dstlen place.target read = some made ∧
      ∀ out : List UInt8, out.length = place.target → out <+: contents place.dst →
        ∀ final, expand out read = some final →
          contents dst = final ++ List.replicate (dstlen - final.length) 0)

/-- The loop ends with what the tokens from its place on say. -/
theorem tokens_unpack (page : dstlen ≤ 0x1000) (fuel : Nat) :
    ∀ place : PackPlace, place.Good src dstlen → src.bytes.length - place.source < fuel →
      ∃ (ret : Nat) (dst : Buffer),
        unpackTokens exactInts dstlen src src.bytes.length fuel (place.held exactInts) =
          .returned ret dst ∧ dst.length = dstlen ∧
        Unpacks dstlen place (tokensFrom src.bytes dstlen fuel place.source place.target) ret
          dst := by
  -- Every round reads the tokens that the decoder reads, and goes on where it goes on.
  induction fuel with
  | zero =>
    intro place _ enough
    omega
  | succ fuel ih =>
    intro place good enough
    simp only [unpackTokens, tokensFrom]
    by_cases present : place.source < src.bytes.length
    swap
    · -- The source is used up.
      obtain ⟨dst, length, _, padded⟩ := pad_fills good page
      rw [token_exhausted good exactInts_sound (by omega), if_neg present]
      refine ⟨1, dst, padded exactInts exactInts_sound, length, .inr ⟨rfl, [], place.target, rfl,
        rfl, ?_⟩⟩
      intro out out_length known final expanded
      rw [← Option.some.inj expanded]
      exact padPage_known _ out_length known good.target_le length
        (padded exactInts exactInts_sound)
    rw [if_pos present]
    have agrees := token_agrees dstlen place present
    rcases token_leads good page present with refused | ⟨after, after_good, later, reached⟩
    · have answer : unpackToken exactInts dstlen src src.bytes.length (place.held exactInts) =
          .error .refused := refused exactInts exactInts_sound
      rw [answer]
      refine ⟨0, place.dst, rfl, good.length_eq, .inl ⟨rfl, ?_⟩⟩
      cases taken : tokensAt src.bytes place.source with
      | none => rfl
      | some pair =>
        simp [agrees.refused answer pair.1 pair.2 taken]
    · have answer := reached exactInts exactInts_sound
      obtain ⟨read, taken, follows⟩ := agrees.unpacked after answer
      simp only [answer, taken, Option.bind_eq_bind, Option.bind_some, follows.placed]
      have going : exactInts.uint (after.held exactInts).dOf < dstlen ↔ after.target < dstlen := by
        change (after.target : Int) < dstlen ↔ _
        omega
      by_cases more : after.target < dstlen
      · -- The rest is unpacked from where this token ends.
        obtain ⟨ret, dst, rest, length, unpacks⟩ := ih after after_good (by omega)
        rw [if_pos (going.mpr more), if_pos more]
        refine ⟨ret, dst, rest, length, ?_⟩
        rcases unpacks with failed | ⟨success, others, made, said, placed, known⟩
        · exact .inl ⟨failed.1, by rw [failed.2]; rfl⟩
        · refine .inr ⟨success, read ++ others, made, by rw [said]; rfl, ?_, ?_⟩
          · rw [placeAll_append, follows.placed]
            exact placed
          · intro out out_length out_known final expanded
            rw [expand_append, Option.bind_eq_some_iff] at expanded
            obtain ⟨middle, front, rest_expanded⟩ := expanded
            exact known middle (expand_length (out_length.symm ▸ follows.placed) front)
              (follows.known out out_length out_known middle front) final rest_expanded
      · -- The page is full.
        obtain ⟨dst, length, _, padded⟩ := pad_fills after_good page
        rw [if_neg (mt going.mp more), if_neg more]
        refine ⟨1, dst, padded exactInts exactInts_sound, length,
          .inr ⟨rfl, read, after.target, rfl, follows.placed, ?_⟩⟩
        intro out out_length out_known final expanded
        exact padPage_known _ (expand_length (out_length.symm ▸ follows.placed) expanded)
          (follows.known out out_length out_known final expanded) after_good.target_le length
          (padded exactInts exactInts_sound)

end Tokens

/-- A page is unpacked with integers of 32 bits, whatever is in it, to what its tokens say. -/
theorem page_unpacks (src : Region) (dst : Buffer) (page : dst.length ≤ 0x1000) :
    ∃ (ret : Nat) (after : Buffer), after.length = dst.length ∧
      (ret = 1 → WrittenTo after dst.length) ∧
      (∀ ints : IntOps, ints.Sound → ∀ fuel, src.bytes.length < fuel →
        decompressExePack2 ints dst.length src src.bytes.length fuel dst =
          .returned ret after) ∧
      Unpacks dst.length ⟨0, 0, dst⟩ (pageTokens src.bytes dst.length) ret after := by
  have good := start_good src dst
  obtain ⟨ret, after, _, _, written, ends⟩ :=
    tokens_end page src.bytes.length _ good (Nat.sub_zero _)
  obtain ⟨told, told_after, run, length, unpacks⟩ :=
    tokens_unpack page (src.bytes.length + 1) _ good (by simp)
  -- The result does not depend on the integers, nor on how many rounds may be made.
  have same := ends exactInts exactInts_sound (src.bytes.length + 1) (by omega)
  rw [run] at same
  obtain ⟨rfl, rfl⟩ := PackResult.returned.inj same
  refine ⟨told, told_after, length, written, ?_, unpacks⟩
  intro ints sound fuel enough
  rw [decompressExePack2, ← start_held dst sound]
  exact ends ints sound fuel enough

/--
A page of a source is unpacked to what its tokens expand to, whatever was in the page before, if
and only if none of the tokens repeats bytes at a distance of zero.
-/
theorem exepack2_determined_iff (src : Region) (dstlen : Nat) (page : dstlen ≤ 0x1000) :
    (∀ dst : Buffer, dst.length = dstlen → ∃ (ret : Nat) (after : Buffer),
      (∀ fuel, src.bytes.length < fuel →
        decompressExePack2 machineInts dstlen src src.bytes.length fuel dst =
          .returned ret after) ∧
      ((ret = 1 ∧ expandPage src.bytes dstlen = some (contents after)) ∨
        (ret = 0 ∧ expandPage src.bytes dstlen = none))) ↔
    ∀ tokens, pageTokens src.bytes dstlen = some tokens → ∀ token ∈ tokens, token.Backward := by
  constructor
  · intro determined tokens said
    -- Any page will do, as it is unpacked successfully.
    have length : (List.replicate dstlen (⟨0, false⟩ : Cell)).length = dstlen :=
      List.length_replicate
    obtain ⟨ret, after, run, result⟩ := determined _ length
    obtain ⟨told, told_after, _, _, ends, unpacks⟩ := page_unpacks src _ (length.symm ▸ page)
    have same := ends machineInts machineInts_sound (src.bytes.length + 1) (by omega)
    rw [length] at same unpacks
    rw [run (src.bytes.length + 1) (by omega)] at same
    obtain ⟨rfl, rfl⟩ := PackResult.returned.inj same
    rcases unpacks with failed | ⟨success, read, made, read_said, placed, _⟩
    · rw [said] at failed
      cases failed.2
    obtain rfl := Option.some.inj (said.symm.trans read_said)
    rcases result with expanded | failed
    · have expanded := expanded.2
      simp only [expandPage, said, Option.bind_eq_bind, Option.bind_some,
        Option.bind_eq_some_iff] at expanded
      obtain ⟨out, front, _⟩ := expanded
      have placed_start : placeAll dstlen ([] : List UInt8).length tokens = some made := placed
      exact (expand_isSome_iff placed_start).mp ⟨out, front⟩
    · omega
  · intro backward dst length
    subst length
    obtain ⟨ret, after, _, _, ends, unpacks⟩ := page_unpacks src dst page
    refine ⟨ret, after, ends machineInts machineInts_sound, ?_⟩
    rcases unpacks with failed | ⟨success, read, made, said, placed, known⟩
    · right
      exact ⟨failed.1, by rw [expandPage, failed.2]; rfl⟩
    · left
      have placed_start : placeAll dst.length ([] : List UInt8).length read = some made := placed
      obtain ⟨final, expanded⟩ := (expand_isSome_iff placed_start).mpr (backward read said)
      refine ⟨success, ?_⟩
      rw [known [] rfl List.nil_prefix final expanded, expandPage, said]
      simp only [Option.bind_eq_bind, Option.bind_some, expanded]
      rfl

/-- Two letters that are repeated, so that the page is what its tokens expand to. -/
theorem exepack2_determined_letters :
    0x1000 ≤ 0x1000 ∧
    ((∀ dst : Buffer, dst.length = 0x1000 → ∃ (ret : Nat) (after : Buffer),
      (∀ fuel, packedLetters.bytes.length < fuel →
        decompressExePack2 machineInts 0x1000 packedLetters packedLetters.bytes.length fuel dst =
          .returned ret after) ∧
      ((ret = 1 ∧ expandPage packedLetters.bytes 0x1000 = some (contents after)) ∨
        (ret = 0 ∧ expandPage packedLetters.bytes 0x1000 = none))) ↔
    ∀ tokens, pageTokens packedLetters.bytes 0x1000 = some tokens →
      ∀ token ∈ tokens, token.Backward) :=
  ⟨Nat.le_refl _, exepack2_determined_iff packedLetters 0x1000 (Nat.le_refl _)⟩

/-- Writing what was read from the same place changes nothing. -/
theorem store_fetched {buffer after : Buffer} {i : Int} {value : UInt8}
    (fetched : fetch buffer i = some value) (stored : store buffer i value = some after) :
    contents after = contents buffer := by
  simp only [store, Option.ite_none_right_eq_some, Option.some.injEq] at stored
  obtain ⟨⟨positive, below⟩, rfl⟩ := stored
  have read : (contents buffer)[i.toNat]? = some value := by
    rw [← fetched, fetch, if_pos positive, contents, List.getElem?_map]
  obtain ⟨inside, same⟩ := List.getElem?_eq_some_iff.mp read
  rw [contents, List.map_set, ← contents]
  exact same ▸ List.set_getElem_self inside

/-- Moving bytes by a distance of zero leaves what was there. -/
theorem linearmove_zero {dst after : Buffer} {target : Int} {len : Nat}
    (moved : linearmove dst target target len = some after) : contents after = contents dst := by
  unfold linearmove at moved
  induction len generalizing after with
  | zero => rw [Option.some.inj moved]
  | succ len ih =>
    simp only [storeEach, Option.bind_eq_some_iff] at moved
    obtain ⟨filled, reached, value, got, last⟩ := moved
    rw [store_fetched got last, ih reached]

/-- A token that repeats three bytes at a distance of zero. -/
def packedStale : Region := ⟨0x8000000, [0x02, 0x00], by decide⟩

/-- The token moves what was in the page before to where it was. -/
theorem stale_first {dstlen : Nat} (room : 3 ≤ dstlen) (dst : Buffer) :
    unpackToken exactInts dstlen packedStale 2 ⟨0, 0, dst⟩ =
      (inside (linearmove dst 0 0 3) >>= fun dst => .ok ⟨2, 3, dst⟩) := by
  have available : ∀ n ≤ 2, srcavail exactInts 2 0 n := by decide
  have checks : dstavail exactInts dstlen 0 3 ∧ (0 : Int) ≤ 0 :=
    ⟨(room_exact dstlen ⟨0, 0, dst⟩ 3).mpr (by omega), Int.le_refl 0⟩
  have byte : srcByte packedStale 0 = .ok 2 :=
    srcByte_held (n := 0) exactInts_sound (by decide)
  rw [unpackToken, if_pos (available 1 (by omega)), byte]
  have kind : unpackKind exactInts dstlen packedStale 2 ⟨0, 0, dst⟩ 2 =
      unpackRepeat exactInts dstlen packedStale 2 ⟨0, 0, dst⟩ 2 := rfl
  have word : srcWord exactInts packedStale 0 = .ok 2 :=
    srcWord_held (n := 0) exactInts_sound (by decide)
  simp only [bind, Except.bind, kind]
  rw [unpackRepeat, if_pos (available 2 (by omega)), word]
  change (if dstavail exactInts dstlen 0 3 ∧ (0 : Int) ≤ 0 then _ else _) = _
  rw [if_pos checks]
  rfl

/-- The bytes that the token repeats are those that were in the page before. -/
theorem stale_kept {dstlen : Nat} (room : 3 < dstlen) {dst after : Buffer}
    (length : dst.length = dstlen) (after_length : after.length = dstlen)
    (run : decompressExePack2 exactInts dstlen packedStale 2 3 dst = .returned 1 after) :
    contents after = (contents dst).take 3 ++ List.replicate (dstlen - 3) 0 := by
  simp only [decompressExePack2, unpackTokens, stale_first (by omega : 3 ≤ dstlen)] at run
  cases moved : linearmove dst 0 0 3 with
  | none =>
    rw [moved] at run
    cases run
  | some page =>
    rw [moved] at run
    -- There is no other token, and the rest of the page is filled up.
    have more : exactInts.uint 3 < dstlen := by
      change (3 : Int) < dstlen
      omega
    have padded : padPage exactInts dstlen ⟨2, 3, page⟩ = .returned 1 after := by
      simp only [inside, bind, Except.bind, if_pos more] at run
      exact run
    have out_length : ((contents dst).take 3).length = 3 := by
      rw [List.length_take, contents_length, length]
      omega
    have known : (contents dst).take 3 <+: contents page := by
      rw [linearmove_zero moved]
      exact List.take_prefix _ _
    have filled := padPage_known ⟨2, 3, page⟩ out_length known (by simp only; omega) after_length
      padded
    rw [filled, out_length]

/-- What was in the page before is what is in it afterwards. -/
theorem exepack2_keeps_stale :
    ∃ dst other after after_other : Buffer, dst.length = 0x1000 ∧ other.length = 0x1000 ∧
      (∀ fuel, 2 < fuel →
        decompressExePack2 machineInts 0x1000 packedStale 2 fuel dst = .returned 1 after) ∧
      (∀ fuel, 2 < fuel →
        decompressExePack2 machineInts 0x1000 packedStale 2 fuel other =
          .returned 1 after_other) ∧
      contents after ≠ contents after_other := by
  have unpacks : ∀ dst : Buffer, dst.length = 0x1000 → ∃ after : Buffer,
      (∀ fuel, 2 < fuel →
        decompressExePack2 machineInts 0x1000 packedStale 2 fuel dst = .returned 1 after) ∧
      contents after = (contents dst).take 3 ++ List.replicate (0x1000 - 3) 0 := by
    intro dst length
    have read : pageTokens packedStale.bytes 0x1000 = some [.copy 0 3] := by decide
    obtain ⟨ret, after, after_length, _, run, result⟩ :=
      page_unpacks packedStale dst (Nat.le_of_eq length)
    rw [length] at run result after_length
    rcases result with failed | success
    · rw [read] at failed
      cases failed.2
    · obtain ⟨rfl, _⟩ := success
      exact ⟨after, run machineInts machineInts_sound, stale_kept (by omega) length after_length
        (run exactInts exactInts_sound 3 (by decide))⟩
  have length : ∀ cell : Cell, (List.replicate 0x1000 cell).length = 0x1000 :=
    fun _ => List.length_replicate
  obtain ⟨after, run, kept⟩ := unpacks (List.replicate 0x1000 ⟨0, false⟩) (length _)
  obtain ⟨after_other, run_other, kept_other⟩ :=
    unpacks (List.replicate 0x1000 ⟨1, false⟩) (length _)
  refine ⟨_, _, after, after_other, length _, length _, run, run_other, ?_⟩
  -- The first bytes are zeros in one case, and ones in the other.
  intro same
  have letters : ∀ cell : Cell, (contents (List.replicate 0x1000 cell)).take 3 =
      List.replicate 3 cell.value := by
    intro cell
    rw [contents, List.map_replicate, List.take_replicate]
    rfl
  rw [kept, kept_other, letters, letters] at same
  have starts := List.append_inj_left same rfl
  cases starts

end TwoIne
