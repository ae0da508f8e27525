import TwoIne.Proofs.LxLoader.BridgeRuns
import TwoIne.Proofs.LxLoader.LdtSegments

/-!
Every function of a native module can be called by 16-bit code through the bridge that was generated
for it, and returns to its caller.
-/

namespace TwoIne

open X86 WordMemory

section Generated

variable (original : OriginalSelectors) (mmapaddr : BitVec 32) (alias16 : BitVec 16)

/-- What is generated for later functions lies behind what is there. -/
theorem init16BitBridges_behind (bridged : List BridgedFunction) (before : List UInt8) :
    ∃ more, (init16BitBridges original mmapaddr alias16 bridged before).2 = before ++ more := by
  -- Each function's code is appended, so what is there stays in front.
  induction bridged generalizing before with
  | nil => exact ⟨[], (List.append_nil before).symm⟩
  | cons first rest ih =>
    obtain ⟨more, same⟩ := ih (init16BitBridge original mmapaddr alias16 first before)
    rw [init16BitBridge_eq] at same
    refine ⟨bridgeCode original mmapaddr (alias16 <<< 3 ||| 7) first before.length ++ more, ?_⟩
    rw [← List.append_assoc, ← same, ← init16BitBridge_eq]
    rfl

/-- The code for each function starts where its entry says. -/
theorem init16BitBridges_at {bridged : List BridgedFunction} (before : List UInt8) {k : Nat}
    {this : BridgedFunction} (listed : bridged[k]? = some this) :
    ∃ front behind,
      (init16BitBridges original mmapaddr alias16 bridged before).2 =
        front ++ (bridgeCode original mmapaddr (alias16 <<< 3 ||| 7) this front.length ++ behind) ∧
      (init16BitBridges original mmapaddr alias16 bridged before).1[k]? =
        some (mmapaddr + BitVec.ofNat 32 front.length) := by
  induction bridged generalizing before k with
  | nil => cases listed
  | cons first rest ih =>
    cases k with
    | zero =>
      cases listed
      obtain ⟨more, same⟩ := init16BitBridges_behind original mmapaddr alias16 rest
        (init16BitBridge original mmapaddr alias16 this before)
      rw [init16BitBridge_eq] at same
      refine ⟨before, more, ?_, rfl⟩
      rw [← List.append_assoc, ← same, ← init16BitBridge_eq]
      rfl
    | succ k =>
      -- The code for the first function is in front of that for the others.
      obtain ⟨front, behind, code, entry⟩ :=
        ih (init16BitBridge original mmapaddr alias16 first before) listed
      exact ⟨front, behind, code, entry⟩

end Generated

section Installed

variable {original : OriginalSelectors} {loadedModules : List (List LxMmaps)}
  {modifyLdt : Nat → Bool} {mmapaddr : Nat} {bridged : List BridgedFunction} {s t u : LdtState}
  {support : Support16Bit}

/-- The object is at the start of a tile. -/
theorem bridgeAddr_aligned (mmapaddr : Nat) : bridgeAddr mmapaddr % 0x10000 = 0 := by
  unfold bridgeAddr
  split
  · omega
  · omega

/-- A lookup of the start of a tile answers with a slot that has this start. -/
theorem LookupDoes.tile {addr slot offset : Nat} (does : LookupDoes s addr t (some (slot, offset)))
    (aligned : LdtAligned s.ldt) (start : addr % 0x10000 = 0) :
    slot < lxMaxLdtSlots ∧ t.ldt slot = addr ∧ addr ≠ 0 := by
  have base : tileBase addr = addr := by
    unfold tileBase
    omega
  cases does with
  | hit inside used holds =>
    obtain ⟨whole, fits⟩ := aligned slot inside
    have same := (tileBase_of_holds whole fits holds).trans base
    exact ⟨inside, same, same ▸ used⟩
  | entered accepted inside _ _ _ =>
    have same : Function.update s.ldt slot (tileBase addr) slot = addr := by
      rw [Function.update_self, base]
    exact ⟨inside, same, by omega⟩

/-- What setting the entry points up comes to. -/
structure SupportSetUp (original : OriginalSelectors) (bridged : List BridgedFunction)
    (mmapaddr : Nat) (support : Support16Bit) (t : LdtState) : Prop where
  addr : support.obj16.addr = bridgeAddr mmapaddr
  slot : support.obj16.alias16 < lxMaxLdtSlots
  based : t.ldt support.obj16.alias16 = support.obj16.addr
  used : support.obj16.addr ≠ 0
  generated : (support.entries, support.code) =
    init16BitBridges original (BitVec.ofNat 32 support.obj16.addr)
      (BitVec.ofNat 16 support.obj16.alias16) bridged []
  short : support.code.length < 0x10000

/-- Entry points that were set up are in an object with a slot of its own. -/
theorem init16BitSupport_setUp (aligned : LdtAligned s.ldt)
    (done : init16BitSupport original loadedModules modifyLdt (some mmapaddr) true bridged s =
      some (t, some support)) :
    SupportSetUp original bridged mmapaddr support t ∧ ∃ out,
      lxFindSelector loadedModules modifyLdt (bridgeAddr mmapaddr) (some true) s =
        some (t, out) := by
  -- Apart from the lookup, setting up can fail in three ways.
  obtain ⟨v, out, looked, does⟩ :=
    lxFindSelector_does loadedModules modifyLdt (bridgeAddr mmapaddr) (some true) s
  unfold init16BitSupport at done
  dsimp only at done
  rw [looked] at done
  cases out with
  | none => cases done
  | some pair =>
    obtain ⟨alias16, offset⟩ := pair
    obtain ⟨inside, based, used⟩ := does.tile aligned (bridgeAddr_aligned mmapaddr)
    dsimp only at done
    split at done
    · cases done
    · split at done
      · cases done
      · rename_i short
        rw [if_neg (by decide)] at done
        cases done
        exact ⟨⟨rfl, inside, based, used, rfl, not_not.mp short⟩, _, looked⟩

/-- Until its slot is freed the object is where the processor takes its segment to be. -/
theorem SupportSetUp.later (setUp : SupportSetUp original bridged mmapaddr support t)
    (aligned : LdtAligned t.ldt) (installed : LdtInstalled t)
    (later : Runs.Reaches ldtStep (LdtHolds support.obj16.alias16) t u) :
    u.segments.base (slotSelector support.obj16.alias16) =
        BitVec.ofNat 32 support.obj16.addr ∧
      u.segments.wide (slotSelector support.obj16.alias16) = false ∧ LdtInstalled u := by
  -- No call that keeps the slot changes its entry, and all of them keep the descriptors in step.
  have stays := later.invariant
    (fun v => LdtAligned v.ldt ∧ LdtInstalled v ∧
      v.ldt support.obj16.alias16 = support.obj16.addr)
    ⟨aligned, installed, setUp.based⟩ (by
      intro v call w out ⟨aligned_v, installed_v, based_v⟩ holds stepped
      have used : v.ldt support.obj16.alias16 ≠ 0 := based_v ▸ setUp.used
      exact ⟨aligned_v.step holds.1 stepped, installed_v.step stepped,
        (ldtStep_holds aligned_v holds stepped used).trans based_v⟩)
  obtain ⟨_, installed_u, based_u⟩ := stays
  obtain ⟨base, narrow⟩ := installed_u.segment setUp.slot (based_u ▸ setUp.used)
  exact ⟨base.trans (congrArg _ based_u), narrow, installed_u⟩

/-- The segment of a tile in its own slot starts where the selector says. -/
theorem tile_segment {slot : Nat} (installed : LdtInstalled u) (inside : slot < lxMaxLdtSlots)
    (tile : u.ldt slot = slot * 0x10000) (used : slot ≠ 0) :
    u.segments.base (slotSelector slot) = (slotSelector slot >>> 3) ++ 0#16 ∧
      u.segments.wide (slotSelector slot) = false := by
  obtain ⟨base, narrow⟩ := installed.segment inside (by rw [tile]; omega)
  refine ⟨?_, narrow⟩
  rw [base, tile, slotSelector_shift inside]
  unfold lxMaxLdtSlots at inside
  apply BitVec.eq_of_toNat_eq
  rw [BitVec.toNat_append, BitVec.toNat_ofNat, BitVec.toNat_ofNat,
    ← Nat.shiftLeft_add_eq_or_of_lt (by decide), Nat.shiftLeft_eq]
  have zero : (0#16).toNat = 0 := rfl
  omega

end Installed

section Calling

variable {original : OriginalSelectors} {loadedModules : List (List LxMmaps)}
  {modifyLdt : Nat → Bool} {mmapaddr : Nat} {bridged : List BridgedFunction} {s t u : LdtState}
  {support : Support16Bit} {p : Process} {m : Machine} {ip cs : BitVec 16} {fn16 : BitVec 32}

/--
A 16-bit caller is at an entry point: its stack is a tile of the table, with room for the saved
registers, and its return address is on top.
-/
structure Calls16Bit (u : LdtState) (support : Support16Bit) (fn16 : BitVec 32)
    (ip cs : BitVec 16) (p : Process) (m : Machine) : Prop where
  segments : p.segments = u.segments
  installed : HoldsAt p.code (BitVec.ofNat 32 support.obj16.addr) support.code
  at_entry : m.sel.cs = slotSelector support.obj16.alias16
  eip : BitVec.ofNat 32 support.obj16.addr + m.eip = fn16
  stack : ∃ slot, slot < lxMaxLdtSlots ∧ slot ≠ 0 ∧ u.ldt slot = slot * 0x10000 ∧
    m.sel.ss = slotSelector slot
  room : 12 ≤ (low m.regs.esp).toNat
  return_inside : (low m.regs.esp).toNat + 4 ≤ 2 ^ 16
  caller : HoldsAt m.memory (m.stackTop u.segments) (halfBytes ip ++ halfBytes cs)

/--
Every function of a native module can be called by 16-bit code. As long as the slot of the object is
not freed, a call of its entry point leads to the function, which has the selectors of the loader and
the address of the caller's arguments; and from wherever the function returns to, the caller goes on
behind its call with the function's result, its own registers and segments, and without the
arguments on its stack.
-/
theorem bridged_calls_return (reached : Runs.Reaches ldtStep LdtArgs {} s)
    (kernel_cs : original.cs.getLsbD 2 = false) (kernel_ss : original.ss.getLsbD 2 = false)
    (granted : mmapaddr + 0x20000 ≤ 2 ^ 32)
    (setUp : init16BitSupport original loadedModules modifyLdt (some mmapaddr) true bridged s =
      some (t, some support))
    (later : Runs.Reaches ldtStep (LdtHolds support.obj16.alias16) t u)
    {k : Nat} {this : BridgedFunction} (listed : bridged[k]? = some this)
    (entry : support.entries[k]? = some fn16) (calls : Calls16Bit u support fn16 ip cs p m) :
    ∃ c, Runs p m c ∧ CalledWith u.segments original this.fn m c ∧
      ∀ d, CReturns u.segments c d → ∃ n, Runs p d n ∧ Resumed this.argbytes ip cs m d n := by
  have aligned := ldtAligned_reached reached
  obtain ⟨done, out, looked⟩ := init16BitSupport_setUp aligned setUp
  have bounded : bridgeAddr mmapaddr < 2 ^ 32 := by
    unfold bridgeAddr
    split
    · omega
    · omega
  have stepped : ldtStep s (.find loadedModules modifyLdt (bridgeAddr mmapaddr) (some true)) =
      some (t, out) := looked
  have args : LdtArgs s (.find loadedModules modifyLdt (bridgeAddr mmapaddr) (some true)) := bounded
  obtain ⟨base, narrow, installed⟩ := done.later (aligned.step args stepped)
    ((ldtInstalled_reached reached).step stepped) later
  obtain ⟨slot, inside, used, tile, ss⟩ := calls.stack
  obtain ⟨ss_base, ss_narrow⟩ := tile_segment installed inside tile used
  -- The code for this function is a part of what was generated.
  obtain ⟨front, behind, code, place⟩ := init16BitBridges_at original
    (BitVec.ofNat 32 support.obj16.addr) (BitVec.ofNat 16 support.obj16.alias16) [] listed
  rw [← done.generated] at code place
  have at_front : fn16 = BitVec.ofNat 32 support.obj16.addr + BitVec.ofNat 32 front.length :=
    Option.some.inj (entry.symm.trans place)
  have short := done.short
  dsimp only at code
  rw [code, List.length_append, List.length_append] at short
  have there := calls.installed
  rw [code] at there
  have bridge : CallsBridge p original (BitVec.ofNat 32 support.obj16.addr) this front.length m := {
    installed := by
      rw [calls.at_entry]
      exact holds_front (there.behind front)
    inside := by
      rw [calls.at_entry]
      exact Nat.lt_of_le_of_lt (Nat.add_le_add_left (Nat.le_add_right _ _) _) short
    cs_base := by rw [calls.segments, calls.at_entry, base]
    cs_narrow := by rw [calls.segments, calls.at_entry, narrow]
    eip := (BitVec.add_right_inj _).mp (calls.eip.trans at_front)
    ss_base := by rw [calls.segments, ss, ss_base]
    ss_narrow := by rw [calls.segments, ss, ss_narrow]
    room := calls.room
    return_inside := calls.return_inside
    kernel_cs := by
      rw [calls.segments]
      exact segments_kernel kernel_cs
    kernel_ss := by
      rw [calls.segments]
      exact segments_kernel kernel_ss }
  rw [← calls.segments]
  refine ⟨_, bridge.runs_call, bridge.called _ _, fun d returned => bridge.resumes ?_ returned⟩
  rw [calls.segments]
  exact calls.caller

end Calling

/-- The selectors of a process of the host. -/
def hostSelectors : OriginalSelectors := ⟨0x73, 0x7B, 0x7B, 0x7B⟩

/-- A module with one function, which takes four bytes of arguments. -/
def soleFunction : List BridgedFunction := [⟨0x8048000, 4⟩]

/-- The table with the object of this module alone. -/
def objectTable : LdtState :=
  LdtState.install {} 0x20 0x200000
    { baseAddr := 0x200000, limit := 16, seg32bit := false, contents := .code }

/-- The object of this module. -/
def soleSupport : Support16Bit where
  obj16 := { mapped := some 0x200000, addr := 0x200000, size := 0x10000 * 2, alias16 := 0x20 }
  entries := [0x200000]
  code := (init16BitBridges hostSelectors 0x200000 0x20 soleFunction []).2

/-- The table once the stack of a program is a tile, too. -/
def stackTable : LdtState :=
  objectTable.install 0x30 0x300000
    { baseAddr := 0x300000, limit := 16, seg32bit := false, contents := .data }

/-- A process with the code of the object. -/
def soleProcess : Process where
  segments := stackTable.segments
  code := written (fun _ => none) 0x200000 soleSupport.code

/-- A program of 16 bits that has just called the function, from the start of its segment. -/
def soleCaller : Machine where
  regs := ⟨1, 2, 3, 4, 0x1000, 5, 6, 7⟩
  sel := ⟨0, slotSelector 0x20, slotSelector 0x30, 0⟩
  eip := 0
  memory _ := some 0

/-- The first lookup takes the slot of its tile. -/
theorem object_looked_up :
    lxFindSelector [] (fun _ => true) 0x200000 (some true) {} =
      some (objectTable, some (0x20, 0)) := by
  obtain ⟨last, scanned, offered, _⟩ :=
    scanSlots_empty 0x200000 lxMaxLdtSlots 0 (preferredSlot (fun _ => 0) 0x200000)
  obtain ⟨available, rfl⟩ := Option.isSome_iff_exists.mp (offered (by decide))
  have nothing : tiledSlot (fun _ => 0) 0x200000 = none := by decide
  have preferred : preferredSlot (fun _ => 0) 0x200000 = some 0x20 := by decide
  unfold lxFindSelector
  rw [if_neg (by omega)]
  dsimp only
  rw [nothing]
  dsimp only
  rw [scanned, preferred]
  rfl

/-- A call of the only function of a module reaches it and comes back. -/
theorem sole_call_returns :
    ∃ c, Runs soleProcess soleCaller c ∧
      CalledWith stackTable.segments hostSelectors 0x8048000 soleCaller c ∧
        ∀ d, CReturns stackTable.segments c d →
          ∃ n, Runs soleProcess d n ∧ Resumed 4 0 0 soleCaller d n := by
  have setUp : init16BitSupport hostSelectors [] (fun _ => true) (some 0x200000) true soleFunction
      {} = some (objectTable, some soleSupport) := by
    have place : bridgeAddr 0x200000 = 0x200000 := by decide
    unfold init16BitSupport
    dsimp only
    rw [place, object_looked_up]
    rfl
  have stepped : ldtStep objectTable (.stack (fun _ => true) 0x300000 0x10000 false) =
      some (stackTable, none) := by
    rfl
  have holds : LdtHolds 0x20 objectTable (.stack (fun _ => true) 0x300000 0x10000 false) :=
    ⟨⟨by decide, by decide⟩, List.not_mem_nil⟩
  refine bridged_calls_return (k := 0) .here (by decide) (by decide) (by decide) setUp
    (.next .here holds stepped) rfl rfl ⟨rfl, ?_, rfl, rfl, ?_, ?_, ?_, ?_⟩
  · exact written_holds _ _ (by decide)
  · exact ⟨0x30, by decide, by decide, by decide, rfl⟩
  · decide
  · decide
  · -- All bytes of the caller's memory are zero.
    have zeros : halfBytes 0 ++ halfBytes 0 = List.replicate 4 0 := rfl
    intro k inside
    have below : k < 4 := inside
    rw [zeros, List.getElem?_replicate_of_lt below]
    rfl

end TwoIne
