import Mathlib.Data.Nat.Digits.Lemmas
import TwoIne.Msg.TrueGetMessage

/-!
A message is expanded within its buffer where every insert that is reached ends in front of the end
of the buffer, and the number in front of it has no more than four digits.
-/

namespace TwoIne

section Messages

variable (pTable : List (List UInt8)) (cbBuf : Nat)

/-- A text with its inserts put in, up to one that is not in the table. -/
def expansion : List UInt8 → List UInt8
  | [] => []
  | [c] => if c = 0x25 then [] else [c]
  | c :: d :: text =>
    if c = 0x25 then
      match insertOf pTable d with
      | none => []
      | some substr => substr ++ expansion text
    else c :: expansion (d :: text)

/--
Whether the inserts that are reached within the buffer end in front of its end, for a text that goes
to a place of the buffer; the text must not end within an insert.
-/
def InsertsFit : Nat → List UInt8 → Prop
  | _, [] => True
  | j, [c] => c = 0x25 → cbBuf ≤ j
  | j, c :: d :: text =>
    cbBuf ≤ j ∨
      if c = 0x25 then
        match insertOf pTable d with
        | none => True
        | some substr => j + substr.length < cbBuf ∧ InsertsFit (j + substr.length) text
      else InsertsFit (j + 1) (d :: text)

/-- Whether an insert that is not in the table is reached within the buffer. -/
def InsertMissing : Nat → List UInt8 → Prop
  | j, c :: d :: text =>
    j < cbBuf ∧
      if c = 0x25 then
        match insertOf pTable d with
        | none => True
        | some substr => InsertMissing (j + substr.length) text
      else InsertMissing (j + 1) (d :: text)
  | _, _ => False

end Messages

/-- Bytes are written from a place on. -/
def WrittenAt (pData : Nat → Option UInt8) (start : Nat) (bytes : List UInt8) : Prop :=
  ∀ k < bytes.length, pData (start + k) = bytes[k]?

section Texts

variable {pTable : List (List UInt8)} {cbBuf len i j : Nat} {c d : UInt8}
  {text rest bytes extra message : List UInt8} {msg : Nat → UInt8} {copy before : MessageCopy}
  {answer : MessageAnswer}

/-! One character, or one insert -/

/-- A character that starts no insert is expanded to itself. -/
theorem expansion_plain (plain : c ≠ 0x25) :
    expansion pTable (c :: text) = c :: expansion pTable text := by
  cases text with
  | nil => simp only [expansion, if_neg plain]
  | cons d text => rw [expansion, if_neg plain]

/-- Behind a character that starts no insert, the inserts are the same. -/
theorem insertsFit_plain (plain : c ≠ 0x25) (room : j < cbBuf) :
    InsertsFit pTable cbBuf j (c :: text) ↔ InsertsFit pTable cbBuf (j + 1) text := by
  cases text with
  | nil =>
    simp only [InsertsFit, iff_true]
    exact fun insert => absurd insert plain
  | cons d text => rw [InsertsFit, if_neg plain, or_iff_right (Nat.not_le.mpr room)]

/-- Behind a character that starts no insert, the same inserts are not in the table. -/
theorem insertMissing_plain (plain : c ≠ 0x25) (room : j < cbBuf) :
    InsertMissing pTable cbBuf j (c :: text) ↔ InsertMissing pTable cbBuf (j + 1) text := by
  cases text with
  | nil => simp only [InsertMissing]
  | cons d text => rw [InsertMissing, if_neg plain, and_iff_right room]

/-- Nothing is missing in what is not reached. -/
theorem not_insertMissing (full : cbBuf ≤ j) : ¬ InsertMissing pTable cbBuf j text := by
  match text with
  | [] => exact id
  | [_] => exact id
  | _ :: _ :: _ => exact fun missing => absurd missing.1 (Nat.not_lt.mpr full)

/-- The rest of a message begins with the byte that is read next. -/
theorem drop_message (agrees : ∀ k < message.length, message[k]? = some (msg k))
    (inside : i < message.length) : message.drop i = msg i :: message.drop (i + 1) := by
  have here := agrees i inside
  rw [List.getElem?_eq_getElem inside] at here
  rw [List.drop_eq_getElem_cons inside, Option.some.inj here]

/-! What is written and read -/

/-- Bytes that are written are there. -/
theorem writtenAt_write (copy : MessageCopy) (j : Nat) (bytes extra : List UInt8) :
    WrittenAt (copy.write j (bytes ++ extra)).pData j bytes := by
  intro k inside
  have within : j ≤ j + k ∧ j + k < j + (bytes ++ extra).length := by
    rw [List.length_append]
    omega
  rw [MessageCopy.write]
  dsimp only
  rw [if_pos within, Nat.add_sub_cancel_left, List.getElem?_append_left inside]

/-- In front of what is written nothing is changed. -/
theorem write_front {k : Nat} (copy : MessageCopy) (bytes : List UInt8) (front : k < j) :
    (copy.write j bytes).pData k = copy.pData k := by
  rw [MessageCopy.write]
  exact if_neg fun within => absurd within.1 (Nat.not_le.mpr front)

/-- A place is written to if it was before, or if it is one of the new ones. -/
theorem write_ne_none (copy : MessageCopy) (j : Nat) (bytes : List UInt8) (k : Nat) :
    (copy.write j bytes).pData k ≠ none ↔
      copy.pData k ≠ none ∨ j ≤ k ∧ k < j + bytes.length := by
  rw [MessageCopy.write]
  dsimp only
  by_cases within : j ≤ k ∧ k < j + bytes.length
  · rw [if_pos within, List.getElem?_eq_getElem (by omega)]
    exact iff_of_true (Option.some_ne_none _) (.inr within)
  · rw [if_neg within]
    exact (or_iff_left within).symm

/-- Copying a text from a place of the buffer on goes right. -/
structure CopiedRight (pTable : List (List UInt8)) (cbBuf len j : Nat) (text : List UInt8)
    (copy : MessageCopy) (answer : MessageAnswer) : Prop where
  reads : ∀ k ∈ answer.copy.reads, k ∈ copy.reads ∨ k < len
  writes : ∀ k, answer.copy.pData k ≠ none → copy.pData k ≠ none ∨ k < cbBuf
  missing : InsertMissing pTable cbBuf j text → answer.rc = .errorMrInvMsgfFormat
  complete : ¬ InsertMissing pTable cbBuf j text → answer.rc = .noError ∧
    answer.pcbMsg =
      some (UInt16.ofNat (j + ((expansion pTable text).take (cbBuf - j)).length)) ∧
    (∀ k < j, answer.copy.pData k = copy.pData k) ∧
    WrittenAt answer.copy.pData j ((expansion pTable text).take (cbBuf - j))

/-- What is copied first, with the rest copied behind it. -/
theorem CopiedRight.extend (bytes extra : List UInt8)
    (behind : CopiedRight pTable cbBuf len (j + bytes.length) rest
      (before.write j (bytes ++ extra)) answer)
    (fits : j + (bytes ++ extra).length ≤ cbBuf) (same : before.pData = copy.pData)
    (reads : ∀ k ∈ before.reads, k ∈ copy.reads ∨ k < len)
    (expanded : expansion pTable text = bytes ++ expansion pTable rest)
    (missing : InsertMissing pTable cbBuf j text ↔
      InsertMissing pTable cbBuf (j + bytes.length) rest) :
    CopiedRight pTable cbBuf len j text copy answer := by
  rw [List.length_append] at fits
  have cut : (expansion pTable text).take (cbBuf - j) =
      bytes ++ (expansion pTable rest).take (cbBuf - (j + bytes.length)) := by
    rw [expanded, List.take_append, List.take_of_length_le (by omega), Nat.sub_sub]
  constructor
  · intro k read
    rcases behind.reads k read with earlier | inside
    · exact reads k earlier
    · exact .inr inside
  · intro k written
    rcases behind.writes k written with earlier | inside
    · rcases (write_ne_none before j _ k).mp earlier with older | here
      · rw [same] at older
        exact .inl older
      · rw [List.length_append] at here
        exact .inr (by omega)
    · exact .inr inside
  · exact fun bad => behind.missing (missing.mp bad)
  · intro good
    obtain ⟨rc, length, front, after⟩ := behind.complete fun bad => good (missing.mpr bad)
    refine ⟨rc, ?_, ?_, ?_⟩
    · rw [length, cut, List.length_append, Nat.add_assoc]
    · intro k earlier
      rw [front k (by omega), write_front before _ earlier, same]
    · -- The first part stays as it was written, and the others follow it.
      rw [cut]
      intro k inside
      rw [List.length_append] at inside
      by_cases first : k < bytes.length
      · rw [List.getElem?_append_left first, front (j + k) (by omega)]
        exact writtenAt_write before j bytes extra k first
      · have later := after (k - bytes.length) (by omega)
        have place : j + bytes.length + (k - bytes.length) = j + k := by omega
        rw [place] at later
        rw [List.getElem?_append_right (Nat.not_lt.mp first), later]

/-- Reading is no change of what was written. -/
@[simp] theorem read_pData (copy : MessageCopy) (i : Nat) : (copy.read i).pData = copy.pData := rfl

/-- What was read is what was read before, and one more. -/
theorem mem_read {k : Nat} : k ∈ (copy.read i).reads ↔ k ∈ copy.reads ∨ k = i := by
  rw [MessageCopy.read, List.mem_append, List.mem_singleton]

/-- A text whose inserts fit is copied right. -/
theorem copyMessage_right (agrees : ∀ k < message.length, message[k]? = some (msg k)) (left : Nat) :
    ∀ i j copy, message.length - i = left → InsertsFit pTable cbBuf j (message.drop i) →
      CopiedRight pTable cbBuf message.length j (message.drop i) copy
        (copyMessage pTable msg message.length cbBuf i j copy) := by
  -- Each turn leaves less of the message.
  induction left using Nat.strongRecOn with
  | ind left ih =>
    intro i j copy rest_length fit
    unfold copyMessage
    by_cases more : i < message.length ∧ j < cbBuf
    · rw [if_pos more]
      have here := drop_message agrees more.1
      dsimp only
      by_cases plain : msg i ≠ 0x25
      · -- A character is copied as it is.
        rw [if_neg plain]
        rw [here] at fit ⊢
        have behind := ih (message.length - (i + 1)) (by omega) (i + 1) (j + 1)
          ((copy.read i).write j [msg i]) rfl ((insertsFit_plain plain more.2).mp fit)
        have room : j + ([msg i] ++ []).length ≤ cbBuf := more.2
        refine CopiedRight.extend [msg i] [] behind room rfl ?_
          (expansion_plain plain) (insertMissing_plain plain more.2)
        intro k read
        rcases mem_read.mp read with earlier | same
        · exact .inl earlier
        · exact .inr (by omega)
      · have insert : msg i = 0x25 := not_not.mp plain
        rw [if_pos insert]
        by_cases last : i + 1 < message.length
        · have next := drop_message agrees last
          rw [here, next, insert] at fit ⊢
          simp only [InsertsFit, Nat.not_le.mpr more.2, false_or, if_true] at fit
          have reads : ∀ k ∈ ((copy.read i).read (i + 1)).reads,
              k ∈ copy.reads ∨ k < message.length := by
            intro k read
            rcases mem_read.mp read with earlier | same
            · rcases mem_read.mp earlier with earlier | same
              · exact .inl earlier
              · exact .inr (by omega)
            · exact .inr (by omega)
          cases found : insertOf pTable (msg (i + 1)) with
          | none =>
            -- The insert is not in the table, and the call fails.
            dsimp only
            have missing : InsertMissing pTable cbBuf j
                (0x25 :: msg (i + 1) :: message.drop (i + 1 + 1)) := by
              rw [InsertMissing, if_pos rfl, found]
              exact ⟨more.2, trivial⟩
            exact ⟨reads, fun k written => .inl written, fun _ => rfl,
              fun good => absurd missing good⟩
          | some substr =>
            dsimp only
            rw [found] at fit
            dsimp only at fit
            have behind := ih (message.length - (i + 2)) (by omega) (i + 2) (j + substr.length)
              (((copy.read i).read (i + 1)).write j (substr ++ [0])) rfl fit.2
            refine CopiedRight.extend substr [0] behind ?_ rfl reads ?_ ?_
            · rw [List.length_append, List.length_singleton]
              omega
            · rw [expansion, if_pos rfl, found]
            · rw [InsertMissing, if_pos rfl, found]
              exact and_iff_right more.2
        · -- A text that ends within an insert does not fit.
          have empty : message.drop (i + 1) = [] := List.drop_eq_nil_of_le (by omega)
          rw [here, empty, insert] at fit
          exact absurd (fit rfl) (Nat.not_le.mpr more.2)
    · rw [if_neg more]
      have done : (expansion pTable (message.drop i)).take (cbBuf - j) = [] := by
        by_cases inside : i < message.length
        · have full : cbBuf - j = 0 := by omega
          rw [full, List.take_zero]
        · rw [List.drop_eq_nil_of_le (by omega), expansion, List.take_nil]
      have none_missing : ¬ InsertMissing pTable cbBuf j (message.drop i) := by
        by_cases inside : i < message.length
        · exact not_insertMissing (by omega)
        · rw [List.drop_eq_nil_of_le (by omega)]
          exact id
      refine ⟨fun k read => .inl read, fun k written => .inl written,
        fun bad => absurd bad none_missing, fun _ => ⟨rfl, ?_, fun _ _ => rfl, ?_⟩⟩
      · rw [done]
        rfl
      · rw [done]
        exact fun k inside => absurd inside (Nat.not_lt_zero k)

/-! Texts that do not fit -/

/-- A byte behind the message was read, or one behind the buffer was written. -/
def Overrun (cbBuf len : Nat) (copy : MessageCopy) : Prop :=
  (∃ k ∈ copy.reads, len ≤ k) ∨ ∃ k, cbBuf ≤ k ∧ copy.pData k ≠ none

/-- What went too far stays so when more is written. -/
theorem Overrun.write (beyond : Overrun cbBuf len copy) (j : Nat) (bytes : List UInt8) :
    Overrun cbBuf len (copy.write j bytes) := by
  rcases beyond with read | written
  · exact .inl read
  · obtain ⟨k, far, there⟩ := written
    exact .inr ⟨k, far, (write_ne_none copy j bytes k).mpr (.inl there)⟩

/-- What went too far stays so when more is read. -/
theorem Overrun.read (beyond : Overrun cbBuf len copy) (i : Nat) :
    Overrun cbBuf len (copy.read i) := by
  rcases beyond with read | written
  · obtain ⟨k, there, far⟩ := read
    exact .inl ⟨k, mem_read.mpr (.inl there), far⟩
  · exact .inr written

/-- What went too far stays so for the rest of the message. -/
theorem copyMessage_overrun (left : Nat) :
    ∀ i j copy, len - i = left → Overrun cbBuf len copy →
      Overrun cbBuf len (copyMessage pTable msg len cbBuf i j copy).copy := by
  induction left using Nat.strongRecOn with
  | ind left ih =>
    intro i j copy rest_length beyond
    unfold copyMessage
    by_cases more : i < len ∧ j < cbBuf
    · rw [if_pos more]
      dsimp only
      split
      · split
        · exact (beyond.read i).read (i + 1)
        · exact ih _ (by omega) _ _ _ rfl (((beyond.read i).read (i + 1)).write j _)
      · exact ih _ (by omega) _ _ _ rfl ((beyond.read i).write j _)
    · rw [if_neg more]
      exact beyond

/-- A text whose inserts do not fit is read or written too far. -/
theorem copyMessage_unfit (agrees : ∀ k < message.length, message[k]? = some (msg k)) (left : Nat) :
    ∀ i j copy, message.length - i = left → ¬ InsertsFit pTable cbBuf j (message.drop i) →
      Overrun cbBuf message.length
        (copyMessage pTable msg message.length cbBuf i j copy).copy := by
  induction left using Nat.strongRecOn with
  | ind left ih =>
    intro i j copy rest_length unfit
    unfold copyMessage
    by_cases inside : i < message.length
    · have here := drop_message agrees inside
      have room : j < cbBuf := by
        -- A text that is not reached always fits.
        refine Nat.not_le.mp fun full => unfit ?_
        match message.drop i with
        | [] => trivial
        | [_] => exact fun _ => full
        | _ :: _ :: _ => exact .inl full
      rw [if_pos ⟨inside, room⟩]
      dsimp only
      by_cases plain : msg i ≠ 0x25
      · rw [if_neg plain]
        rw [here] at unfit
        exact ih (message.length - (i + 1)) (by omega) (i + 1) (j + 1) _ rfl fun fit =>
          unfit ((insertsFit_plain plain room).mpr fit)
      · have insert : msg i = 0x25 := not_not.mp plain
        rw [if_pos insert]
        by_cases last : i + 1 < message.length
        · have next := drop_message agrees last
          rw [here, next, insert] at unfit
          simp only [InsertsFit, Nat.not_le.mpr room, false_or, if_true] at unfit
          cases found : insertOf pTable (msg (i + 1)) with
          | none =>
            rw [found] at unfit
            exact absurd trivial unfit
          | some substr =>
            rw [found] at unfit
            dsimp only at unfit ⊢
            by_cases ends : j + substr.length < cbBuf
            · exact ih (message.length - (i + 2)) (by omega) (i + 2) (j + substr.length) _ rfl
                fun fit => unfit ⟨ends, fit⟩
            · -- The end of the insert is behind the buffer.
              apply copyMessage_overrun _ _ _ _ rfl
              refine .inr ⟨j + substr.length, Nat.not_lt.mp ends, ?_⟩
              refine (write_ne_none _ _ _ _).mpr (.inr ⟨Nat.le_add_right _ _, ?_⟩)
              rw [List.length_append, List.length_singleton]
              omega
        · -- The byte behind the message is read.
          have beyond (copy : MessageCopy) :
              Overrun cbBuf message.length (copy.read (i + 1)) :=
            .inl ⟨i + 1, mem_read.mpr (.inr rfl), Nat.not_lt.mp last⟩
          split
          · exact beyond _
          · exact copyMessage_overrun _ _ _ _ rfl ((beyond _).write _ _)
    · rw [List.drop_eq_nil_of_le (by omega)] at unfit
      exact absurd trivial unfit

end Texts

/-- The message of an entry: its kind and its text. -/
def messageAt (msgseg : Nat → UInt8) (entry : Nat) : List UInt8 :=
  (List.range (segmentWord msgseg (entry + 2))).map fun k => msgseg (entry + 4 + k)

/-- What a message is expanded to, cut off at the end of the buffer; errors have their number. -/
def expandedMessage (pTable : List (List UInt8)) (cbBuf msgnum : UInt16) :
    List UInt8 → List UInt8
  | [] => []
  | kind :: text =>
    ((if kind = 0x45 then sysPrefix msgnum else []) ++ expansion pTable text).take cbBuf.toNat

/-- A message is expanded within its buffer, or an error is answered. -/
structure MessageExpanded (pTable : List (List UInt8)) (cbBuf msgnum : UInt16)
    (message : List UInt8) (answer : MessageAnswer) : Prop where
  reads : ∀ i ∈ answer.copy.reads, i < message.length
  writes : ∀ k, answer.copy.pData k ≠ none → k < cbBuf.toNat
  done : answer.rc ≠ .noError ∨ ∃ pcbMsg, answer.pcbMsg = some pcbMsg ∧
    pcbMsg.toNat = (expandedMessage pTable cbBuf msgnum message).length ∧
    WrittenAt answer.copy.pData 0 (expandedMessage pTable cbBuf msgnum message)

/--
The inserts that are reached end in front of the end of the buffer, and in front of the text of an
error the number fits.

What such a number has behind its eighth character is lost, which shows unless an insert is missing
or the text goes on alike to the end of the buffer.
-/
def MessageFits (pTable : List (List UInt8)) (cbBuf msgnum : UInt16) : List UInt8 → Prop
  | [] => False
  | kind :: text =>
    if kind = 0x45 then
      (sysPrefix msgnum).length < cbBuf.toNat ∧ InsertsFit pTable cbBuf.toNat 8 text ∧
        (InsertMissing pTable cbBuf.toNat 8 text ∨
          ((sysPrefix msgnum).drop 8 ++ expansion pTable text).take (cbBuf.toNat - 8) =
            (expansion pTable text).take (cbBuf.toNat - 8))
    else InsertsFit pTable cbBuf.toNat 0 text

/-- The number in front of a text has eight characters at least. -/
theorem le_sysPrefix_length (msgnum : UInt16) : 8 ≤ (sysPrefix msgnum).length := by
  unfold sysPrefix
  rw [List.length_append, List.length_append, List.length_leftpad]
  simp only [List.length_cons, List.length_nil]
  omega

/-- A number of up to four digits has no more than eight characters in front of a text. -/
theorem sysPrefix_length_eq_iff (msgnum : UInt16) :
    (sysPrefix msgnum).length = 8 ↔ msgnum.toNat < 10000 := by
  have digits := Nat.digits_length_le_iff (b := 10) (k := 4) (by decide) msgnum.toNat
  unfold sysPrefix
  rw [List.length_append, List.length_append, List.length_leftpad, List.length_map,
    List.length_reverse]
  simp only [List.length_cons, List.length_nil]
  omega

section Answers

variable {pTable : List (List UInt8)} {cbBuf msgnum : UInt16} {message text : List UInt8}
  {kind : UInt8} {copy : MessageCopy} {answer : MessageAnswer}

/-- What was read or written too far is no message that is expanded within its buffer. -/
theorem Overrun.not_expanded (beyond : Overrun cbBuf.toNat message.length answer.copy) :
    ¬ MessageExpanded pTable cbBuf msgnum message answer := by
  intro expanded
  rcases beyond with read | written
  · obtain ⟨k, there, far⟩ := read
    exact absurd (expanded.reads k there) (Nat.not_lt.mpr far)
  · obtain ⟨k, far, there⟩ := written
    exact absurd (expanded.writes k there) (Nat.not_lt.mpr far)

/-- A text that is copied right to the start of the buffer is expanded. -/
theorem CopiedRight.expanded (plain : kind ≠ 0x45)
    (right : CopiedRight pTable cbBuf.toNat (kind :: text).length 0 text (MessageCopy.read {} 0)
      answer) : MessageExpanded pTable cbBuf msgnum (kind :: text) answer := by
  constructor
  · intro i read
    rcases right.reads i read with first | inside
    · obtain rfl : i = 0 := by simpa [MessageCopy.read] using first
      exact Nat.succ_pos _
    · exact inside
  · intro k written
    rcases right.writes k written with before | inside
    · exact absurd rfl before
    · exact inside
  · by_cases missing : InsertMissing pTable cbBuf.toNat 0 text
    · -- The call fails on the insert that is not in the table.
      rw [right.missing missing]
      exact .inl (by decide)
    · obtain ⟨_, length, _, there⟩ := right.complete missing
      have bound := cbBuf.toNat_lt
      have short : ((expansion pTable text).take cbBuf.toNat).length ≤ cbBuf.toNat := by
        rw [List.length_take]
        exact Nat.min_le_left _ _
      have whole : expandedMessage pTable cbBuf msgnum (kind :: text) =
          (expansion pTable text).take cbBuf.toNat := by
        rw [expandedMessage, if_neg plain, List.nil_append]
      rw [Nat.sub_zero] at length there
      rw [whole]
      refine .inr ⟨_, length, ?_, there⟩
      rw [Nat.zero_add, UInt16.toNat_ofNat']
      exact Nat.mod_eq_of_lt (by omega)

/-- A text that is copied right behind its number is expanded if nothing of the number is lost. -/
theorem CopiedRight.expanded_error_iff (number_fits : (sysPrefix msgnum).length < cbBuf.toNat)
    (right : CopiedRight pTable cbBuf.toNat (0x45 :: text).length 8 text
      ((MessageCopy.read {} 0).write 0 (sysPrefix msgnum ++ [0])) answer) :
    MessageExpanded pTable cbBuf msgnum (0x45 :: text) answer ↔
      InsertMissing pTable cbBuf.toNat 8 text ∨
        ((sysPrefix msgnum).drop 8 ++ expansion pTable text).take (cbBuf.toNat - 8) =
          (expansion pTable text).take (cbBuf.toNat - 8) := by
  have eight := le_sysPrefix_length msgnum
  have reads : ∀ i ∈ answer.copy.reads, i < (0x45 :: text).length := by
    intro i read
    rcases right.reads i read with first | inside
    · obtain rfl : i = 0 := by simpa [MessageCopy.read, MessageCopy.write] using first
      exact Nat.succ_pos _
    · exact inside
  have writes : ∀ k, answer.copy.pData k ≠ none → k < cbBuf.toNat := by
    intro k written
    rcases right.writes k written with before | inside
    · rcases (write_ne_none _ _ _ _).mp before with earlier | here
      · exact absurd rfl earlier
      · rw [List.length_append, List.length_singleton] at here
        omega
    · exact inside
  by_cases missing : InsertMissing pTable cbBuf.toNat 8 text
  · refine iff_of_true ⟨reads, writes, .inl ?_⟩ (.inl missing)
    rw [right.missing missing]
    decide
  · rw [or_iff_right missing]
    obtain ⟨rc, length, front, there⟩ := right.complete missing
    have bound := cbBuf.toNat_lt
    have whole : expandedMessage pTable cbBuf msgnum (0x45 :: text) =
        (sysPrefix msgnum).take 8 ++
          ((sysPrefix msgnum).drop 8 ++ expansion pTable text).take (cbBuf.toNat - 8) := by
      rw [expandedMessage, if_pos rfl]
      nth_rewrite 1 [← List.take_append_drop 8 (sysPrefix msgnum)]
      rw [List.append_assoc, List.take_append, List.take_of_length_le, List.length_take,
        Nat.min_eq_left eight]
      rw [List.length_take]
      omega
    have first_length : ((sysPrefix msgnum).take 8).length = 8 := by
      rw [List.length_take, Nat.min_eq_left eight]
    have short : ((expansion pTable text).take (cbBuf.toNat - 8)).length ≤ cbBuf.toNat - 8 := by
      rw [List.length_take]
      exact Nat.min_le_left _ _
    -- The first eight characters of the number stay in front of the text.
    have number : ∀ k < 8, answer.copy.pData k = ((sysPrefix msgnum).take 8)[k]? := by
      intro k inside
      have written := writtenAt_write (MessageCopy.read {} 0) 0 (sysPrefix msgnum) [0] k (by omega)
      rw [Nat.zero_add] at written
      rw [front k inside, written, List.getElem?_take_of_lt inside]
    have reported : (UInt16.ofNat (8 +
        ((expansion pTable text).take (cbBuf.toNat - 8)).length)).toNat =
          8 + ((expansion pTable text).take (cbBuf.toNat - 8)).length := by
      rw [UInt16.toNat_ofNat']
      exact Nat.mod_eq_of_lt (by omega)
    constructor
    · intro expanded
      rcases expanded.done with failed | done
      · exact absurd rc failed
      · obtain ⟨pcbMsg, same, counted, written⟩ := done
        rw [length] at same
        cases same
        rw [reported, whole, List.length_append, first_length] at counted
        rw [whole] at written
        apply List.ext_getElem?
        intro k
        by_cases inside : k < ((expansion pTable text).take (cbBuf.toNat - 8)).length
        · -- What is behind the number is both the rest of it and the text.
          have place := written (8 + k) (by
            rw [List.length_append, first_length]
            omega)
          rw [Nat.zero_add, there k inside, List.getElem?_append_right (by omega), first_length,
            Nat.add_sub_cancel_left] at place
          exact place.symm
        · rw [List.getElem?_eq_none (by omega), List.getElem?_eq_none (by omega)]
    · intro same
      refine ⟨reads, writes, .inr ⟨_, length, ?_, ?_⟩⟩
      · rw [reported, whole, same, List.length_append, first_length]
      · rw [whole, same]
        intro k inside
        rw [List.length_append, first_length] at inside
        rw [Nat.zero_add]
        by_cases early : k < 8
        · rw [List.getElem?_append_left (by omega), number k early]
        · have later := there (k - 8) (by omega)
          have place : 8 + (k - 8) = k := by omega
          rw [place] at later
          rw [List.getElem?_append_right (by omega), first_length, later]

end Answers

/-- The bytes of a message are those of its segment. -/
theorem messageAt_get {msgseg : Nat → UInt8} {entry k : Nat}
    (inside : k < (messageAt msgseg entry).length) :
    (messageAt msgseg entry)[k]? = some (msgseg (entry + 4 + k)) := by
  unfold messageAt at inside ⊢
  rw [List.length_map, List.length_range] at inside
  rw [List.getElem?_map, List.getElem?_range inside]
  rfl

/--
A message that a segment has is expanded within its buffer exactly if its inserts that are reached
end in front of the end of the buffer and nothing of its number is lost.
-/
theorem message_expanded_iff {msgseg : Nat → UInt8} {msgnum : UInt16} {entry : Nat}
    (found : messageEntry msgseg msgnum = some entry) (pTable : List (List UInt8))
    (cbBuf : UInt16) :
    MessageExpanded pTable cbBuf msgnum (messageAt msgseg entry)
        (dos16TrueGetMessage pTable cbBuf msgnum msgseg) ↔
      MessageFits pTable cbBuf msgnum (messageAt msgseg entry) := by
  have agrees : ∀ k < (messageAt msgseg entry).length,
      (messageAt msgseg entry)[k]? = some (msgseg (entry + 4 + k)) := fun k inside =>
    messageAt_get inside
  have len : segmentWord msgseg (entry + 2) = (messageAt msgseg entry).length := by
    rw [messageAt, List.length_map, List.length_range]
  unfold dos16TrueGetMessage
  rw [found]
  dsimp only
  rw [len]
  generalize messageAt msgseg entry = message at agrees
  have eight := le_sysPrefix_length msgnum
  cases message with
  | nil =>
    -- The kind of the message is read, although the message has no byte.
    have beyond : Overrun cbBuf.toNat 0 (MessageCopy.read {} 0) := .inl ⟨0, by simp [mem_read]⟩
    refine iff_of_false (Overrun.not_expanded ?_) id
    split
    · split
      · exact copyMessage_overrun _ _ _ _ rfl (beyond.write _ _)
      · exact copyMessage_overrun _ _ _ _ rfl beyond
    · exact copyMessage_overrun _ _ _ _ rfl beyond
  | cons kind text =>
    have first : msgseg (entry + 4 + 0) = kind := by
      have here := agrees 0 (Nat.succ_pos _)
      exact (Option.some.inj here).symm
    rw [MessageFits]
    by_cases error : kind = 0x45
    · rw [if_pos (first.trans error), if_pos error, error]
      rw [error] at agrees
      by_cases room : 8 < cbBuf.toNat
      · rw [if_pos room]
        by_cases number_fits : (sysPrefix msgnum).length < cbBuf.toNat
        · rw [and_iff_right number_fits]
          by_cases fit : InsertsFit pTable cbBuf.toNat 8 text
          · -- The text is copied right behind the number.
            rw [and_iff_right fit]
            apply CopiedRight.expanded_error_iff number_fits
            exact copyMessage_right agrees _ 1 8 _ rfl fit
          · refine iff_of_false (Overrun.not_expanded ?_) fun fits => fit fits.1
            exact copyMessage_unfit agrees _ 1 8 _ rfl fit
        · -- The end of the number is behind the buffer.
          refine iff_of_false (Overrun.not_expanded ?_) fun fits => number_fits fits.1
          apply copyMessage_overrun _ _ _ _ rfl
          refine .inr ⟨(sysPrefix msgnum).length, Nat.not_lt.mp number_fits, ?_⟩
          refine (write_ne_none _ _ _ _).mpr (.inr ⟨Nat.zero_le _, ?_⟩)
          rw [List.length_append, List.length_singleton]
          omega
      · -- No number is written, but its length is reported.
        rw [if_neg room]
        refine iff_of_false (fun expanded => ?_) fun fits => room (by omega)
        have stopped : copyMessage pTable (fun i => msgseg (entry + 4 + i))
            (0x45 :: text).length cbBuf.toNat 1 8 (MessageCopy.read {} 0) =
              ⟨.noError, some (UInt16.ofNat 8), MessageCopy.read {} 0⟩ := by
          unfold copyMessage
          exact if_neg fun more => room more.2
        rw [stopped] at expanded
        rcases expanded.done with failed | done
        · exact failed rfl
        · obtain ⟨pcbMsg, same, counted, written⟩ := done
          cases same
          have cut : (expandedMessage pTable cbBuf msgnum (0x45 :: text)).length =
              cbBuf.toNat := by
            rw [expandedMessage, if_pos rfl, List.length_take, List.length_append]
            omega
          have reported : (UInt16.ofNat 8).toNat = 8 := rfl
          rw [cut, reported] at counted
          have there := written 0 (by omega)
          rw [List.getElem?_eq_getElem (by omega)] at there
          cases there
    · rw [if_neg fun same => error (first.symm.trans same), if_neg error]
      by_cases fit : InsertsFit pTable cbBuf.toNat 0 text
      · refine iff_of_true (CopiedRight.expanded error ?_) fit
        exact copyMessage_right agrees _ 1 0 _ rfl fit
      · refine iff_of_false (Overrun.not_expanded ?_) fit
        exact copyMessage_unfit agrees _ 1 0 _ rfl fit

/-- A segment with one message of the number 5, an insert behind a space. -/
def insertSegment (place : Nat) : UInt8 :=
  ([0, 0, 0, 0, 0, 0, 0, 0, 0, 0, 0, 0, 0, 0, 12, 0, 16, 0, 0, 1, 0, 23, 0, 5, 0, 3, 0, 0x20, 0x25,
    0x31] : List UInt8).getD place 0

/-- The one message of the segment is found. -/
theorem insertSegment_entry : messageEntry insertSegment 5 = some 23 := by
  decide

/-- The message of the segment. -/
theorem insertSegment_message : messageAt insertSegment 23 = [0x20, 0x25, 0x31] := by
  decide

/-- Three bytes fit in a buffer of four, with the end of the insert. -/
theorem short_insert_expanded :
    MessageExpanded [[0x41, 0x42, 0x43]] 4 5 (messageAt insertSegment 23)
      (dos16TrueGetMessage [[0x41, 0x42, 0x43]] 4 5 insertSegment) :=
  (message_expanded_iff insertSegment_entry [[0x41, 0x42, 0x43]] 4).mpr (by
    have insert : insertOf [[0x41, 0x42, 0x43]] 0x31 = some [0x41, 0x42, 0x43] := by decide
    rw [insertSegment_message, MessageFits, if_neg (by decide), InsertsFit, if_pos rfl, insert]
    exact .inr ⟨by decide, trivial⟩)

/-- Of an insert of three bytes, the last one and the end are written behind a buffer of two. -/
theorem long_insert_overruns :
    messageEntry insertSegment 5 = some 23 ∧
      (dos16TrueGetMessage [[0x41, 0x42, 0x43]] 2 5 insertSegment).copy.pData 2 = some 0x43 ∧
      ¬ MessageExpanded [[0x41, 0x42, 0x43]] 2 5 (messageAt insertSegment 23)
        (dos16TrueGetMessage [[0x41, 0x42, 0x43]] 2 5 insertSegment) := by
  have third : (dos16TrueGetMessage [[0x41, 0x42, 0x43]] 2 5 insertSegment).copy.pData 2 =
      some 0x43 := by
    have insert : insertOf [[0x41, 0x42, 0x43]] (insertSegment 29) = some [0x41, 0x42, 0x43] := by
      decide
    have len : segmentWord insertSegment 25 = 3 := by decide
    unfold dos16TrueGetMessage
    rw [insertSegment_entry]
    dsimp only
    rw [if_neg (by decide), len]
    unfold copyMessage
    rw [if_pos (by decide)]
    dsimp only
    rw [if_pos (by decide), insert]
    dsimp only
    unfold copyMessage
    rw [if_neg (by decide)]
    rfl
  refine ⟨insertSegment_entry, third, fun expanded => ?_⟩
  have inside := expanded.writes 2 (by rw [third]; exact Option.some_ne_none _)
  exact absurd inside (by decide)

end TwoIne
