import TwoIne.Debugger.LinearLookup

/-! Selectors and linear addresses, converted with the table that the loader shares. -/

namespace TwoIne

/-- The linear address of a selector and an offset; 0xFFFFFFFF says that there is none. -/
def ldtSelectorToLinear (state : Option DebugSharedState) (selector offset : BitVec 16) :
    BitVec 32 :=
  match state with
  | none => 0xFFFFFFFF
  | some state =>
    -- A selector that is not of the LDT is not looked up.
    if selector &&& 0x4 = 0 then selector.setWidth 32 * 8 + offset.setWidth 32
    else
      let index := ((selector >>> 3) &&& 0x1FFF).toNat
      if lxMaxLdtSlots ≤ index then 0xFFFFFFFF
      else
        let base := state.selectors index
        if base = 0 ∧ index ≠ 0 then 0xFFFFFFFF else base + offset.setWidth 32

/-- Whether the segment in a slot holds a linear address, in 32-bit arithmetic. -/
def DebugSharedState.holds (state : DebugSharedState) (linear : BitVec 32) (i : Nat) : Bool :=
  let base := state.selectors i
  let limit := state.limit i
  base ≠ 0 && (base ≤ linear && linear < base + limit)

/-- The selector and the offset of a linear address, by the first slot that holds it. -/
def ldtLinearToSelector (state : Option DebugSharedState) (linear : BitVec 32) :
    Option (BitVec 16 × BitVec 16) :=
  match state with
  | none => none
  | some state =>
    ((List.range lxMaxLdtSlots).find? (state.holds linear)).map fun i =>
      (BitVec.ofNat 16 i <<< 3 ||| 0x04 ||| 0x03, (linear - state.selectors i).setWidth 16)

/-- The base, the limit and the width that are shared of a selector. -/
def ldtGetSelectorInfo (state : Option DebugSharedState) (selector : BitVec 16) :
    Option (BitVec 32 × BitVec 32 × BitVec 32) :=
  match state with
  | none => none
  | some state =>
    let idx := selectorSlot selector
    if lxMaxLdtSlots ≤ idx then none
    else some (state.selectors idx, state.limit idx, state.is32bit idx)

/-- The linear address of a code address; zero says that there is none. -/
def linearAddressFromSelectors (state : Option DebugSharedState) (cs ip : BitVec 16) : BitVec 32 :=
  match ldtGetSelectorInfo state cs with
  | none => 0
  | some (base, _, is32bit) =>
    if is32bit ≠ 0 then base + ip.setWidth 32 else base + (ip &&& 0xFFFF).setWidth 32

end TwoIne
