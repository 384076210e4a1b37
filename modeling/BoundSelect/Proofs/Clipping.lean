import BoundSelect.Query
import BoundSelect.Select.Clauses
import Mathlib.Data.Nat.Find

/-!
# Clipped texts

A front of a text is some of its characters from the start on. Fronts and the places where no
character is cut come in pairs: a front ends at the place that its bytes reach, and every such place
ends a front (`Text.isValid_iff_exists_front`). So stepping back to the nearest place finds the
longest front that takes no more than some number of bytes, and a text is clipped to it
(`Text.isLongestFront_clip`). The next character would not fit and takes at most four bytes, so at
most three stay free (`Text.IsLongestFront.room_le`).

Of a statement that was written, the log shows the longest front of two hundred bytes
(`Select.build_shows_front`).
-/

set_option autoImplicit false

namespace BoundSelect

namespace Text

variable {room : Nat} {s : String}

/-! ## Fronts of a text -/

/-- As many whole characters from the start of a text as take at most `room` bytes. -/
structure IsLongestFront (room : Nat) (s front : String) : Prop where
  isFront : front.toList <+: s.toList
  fits : front.utf8ByteSize ≤ room
  longest : ∀ other : String, other.toList <+: s.toList → other.utf8ByteSize ≤ room →
    other.toList <+: front.toList

theorem IsLongestFront.unique {front other : String} (hfront : IsLongestFront room s front)
    (hother : IsLongestFront room s other) : front = other := by
  have hle : front.toList <+: other.toList := hother.longest front hfront.isFront hfront.fits
  have hge : other.toList <+: front.toList := hfront.longest other hother.isFront hother.fits
  exact String.toList_inj.1 (hle.eq_of_length_le hge.length_le)

theorem front_append {front back : String} (h : s = front ++ back) :
    front.toList <+: s.toList := by
  rw [h, String.toList_append]
  exact List.prefix_append front.toList back.toList

theorem exists_append_of_front {front : String} (h : front.toList <+: s.toList) :
    ∃ back, s = front ++ back := by
  obtain ⟨back, hback⟩ := h
  refine ⟨String.ofList back, ?_⟩
  rw [← String.toList_inj, String.toList_append, String.toList_ofList, hback]

/-- Of two fronts, the one that takes no more bytes is a front of the other. -/
theorem front_of_utf8ByteSize_le {front other : String} (hfront : front.toList <+: s.toList)
    (hother : other.toList <+: s.toList) (hle : front.utf8ByteSize ≤ other.utf8ByteSize) :
    front.toList <+: other.toList := by
  rcases List.prefix_or_prefix_of_prefix hfront hother with h | h
  · exact h
  -- what the front has more than the other takes no bytes
  · obtain ⟨back, rfl⟩ := exists_append_of_front h
    have hback : back = "" := by
      rw [← String.utf8ByteSize_eq_zero_iff]
      rw [String.utf8ByteSize_append] at hle
      omega
    refine ⟨[], ?_⟩
    rw [List.append_nil, hback, String.append_empty]

/-- The places where no character is cut are the ends of fronts. -/
theorem isValid_iff_exists_front {n : Nat} :
    String.Pos.Raw.IsValid s ⟨n⟩ ↔
      ∃ front : String, front.toList <+: s.toList ∧ front.utf8ByteSize = n := by
  rw [String.Pos.Raw.isValid_iff_exists_append]
  constructor
  · rintro ⟨front, back, hs, hn⟩
    exact ⟨front, front_append hs, (congrArg String.Pos.Raw.byteIdx hn).symm⟩
  · rintro ⟨front, hfront, rfl⟩
    obtain ⟨back, hs⟩ := exists_append_of_front hfront
    exact ⟨front, back, hs, rfl⟩

/-! ## Stepping back -/

theorem backOff_eq_findGreatest (s : String) (n : Nat) :
    backOff s n = Nat.findGreatest (fun m => String.Pos.Raw.IsValid s ⟨m⟩) n := by
  induction n with
  | zero => rfl
  | succ n ih => rw [backOff, Nat.findGreatest_succ, ih]

theorem backOff_le (s : String) (n : Nat) : backOff s n ≤ n := by
  rw [backOff_eq_findGreatest]
  exact Nat.findGreatest_le n

/-- No place between two characters is stepped over. -/
theorem le_backOff {m n : Nat} (hm : String.Pos.Raw.IsValid s ⟨m⟩) (h : m ≤ n) :
    m ≤ backOff s n := by
  rw [backOff_eq_findGreatest]
  exact Nat.le_findGreatest h hm

/-- From behind a text one steps back to its end. -/
theorem backOff_of_le (h : s.utf8ByteSize ≤ room) :
    backOff s room = s.utf8ByteSize := by
  have hle : backOff s room ≤ s.utf8ByteSize := (isValid_backOff s room).le_utf8ByteSize
  have hge : s.utf8ByteSize ≤ backOff s room := le_backOff String.Pos.Raw.isValid_rawEndPos h
  omega

/-! ## Clipping -/

/-- A text is split where stepping back ends. -/
theorem exists_clip_append (room : Nat) (s : String) :
    ∃ back, s = clip room s ++ back ∧ (clip room s).utf8ByteSize = backOff s room := by
  rcases Nat.lt_or_ge room s.utf8ByteSize with hlong | hfits
  · obtain ⟨back, hsplits⟩ := String.copy_sliceTo_eq_iff_exists_splits.1 (clip_of_lt hlong).symm
    have hsize := congrArg String.Pos.Raw.byteIdx hsplits.offset_eq_rawEndPos
    exact ⟨back, hsplits.eq_append, hsize.symm⟩
  · refine ⟨"", ?_, ?_⟩
    · rw [clip_of_le hfits, String.append_empty]
    · rw [clip_of_le hfits, backOff_of_le hfits]

theorem utf8ByteSize_clip (room : Nat) (s : String) :
    (clip room s).utf8ByteSize = backOff s room := by
  obtain ⟨_, -, hsize⟩ := exists_clip_append room s
  exact hsize

theorem front_clip (room : Nat) (s : String) : (clip room s).toList <+: s.toList := by
  obtain ⟨back, hs, -⟩ := exists_clip_append room s
  exact front_append hs

theorem isLongestFront_clip (room : Nat) (s : String) :
    IsLongestFront room s (clip room s) where
  isFront := front_clip room s
  fits := by
    rw [utf8ByteSize_clip]
    exact backOff_le s room
  longest := by
    intro other hother hroom
    have hplace : String.Pos.Raw.IsValid s ⟨other.utf8ByteSize⟩ :=
      isValid_iff_exists_front.2 ⟨other, hother, rfl⟩
    apply front_of_utf8ByteSize_le hother (front_clip room s)
    rw [utf8ByteSize_clip]
    exact le_backOff hplace hroom

example : clip 9 "aé€😀" = "aé€" := by decide

theorem isLongestFront_iff {front : String} :
    IsLongestFront room s front ↔ front = clip room s := by
  constructor
  · intro h
    exact h.unique (isLongestFront_clip room s)
  · rintro rfl
    exact isLongestFront_clip room s

/-- A text that there is room for is its own longest front. -/
theorem IsLongestFront.eq_of_le {front : String} (h : IsLongestFront room s front)
    (hroom : s.utf8ByteSize ≤ room) : front = s := by
  rw [isLongestFront_iff.1 h]
  exact clip_of_le hroom

theorem clip_eq_self_iff : clip room s = s ↔ s.utf8ByteSize ≤ room := by
  constructor
  · intro h
    have hfits := (isLongestFront_clip room s).fits
    rwa [h] at hfits
  · exact clip_of_le

/-- The next character does not fit, so at most three bytes stay free. -/
theorem IsLongestFront.room_le {front : String} (h : IsLongestFront room s front)
    (hlong : room < s.utf8ByteSize) : room ≤ front.utf8ByteSize + 3 := by
  obtain ⟨back, hback⟩ := h.isFront
  cases back with
  | nil =>
      rw [List.append_nil, String.toList_inj] at hback
      have hfits := h.fits
      rw [hback] at hfits
      omega
  | cons c back =>
      have hnext : (front.push c).toList <+: s.toList := by
        rw [String.toList_push, ← hback, List.append_cons front.toList c back]
        exact List.prefix_append (front.toList ++ [c]) back
      by_contra hfree
      have hroom : (front.push c).utf8ByteSize ≤ room := by
        have hfour := c.utf8Size_le_four
        rw [String.utf8ByteSize_push]
        omega
      have hlength := (h.longest (front.push c) hnext hroom).length_le
      rw [String.toList_push, List.length_append, List.length_singleton] at hlength
      omega

end Text

/-! ## What the log shows -/

/-- An event leaves something out exactly if the text takes more bytes than are shown. -/
theorem LogEvent.truncated_about (message : String) (q : Query) :
    (about message q).truncated = true ↔ shownBytes < q.sql.utf8ByteSize := by
  have hfits := (Text.isLongestFront_clip shownBytes q.sql).fits
  rw [about, decide_eq_true_iff]
  by_cases h : q.sql.utf8ByteSize ≤ shownBytes
  · rw [Text.clip_of_le h]
    omega
  · omega

namespace Select

/-- Texts that are clipped, and the log of writing a statement. Stepping back from any number of
bytes ends where no character is cut, and a clipped text takes the bytes in front of that place. It
is the longest front that takes at most so many bytes, and no other text is. It is the whole text
exactly if there is room for it, and otherwise leaves at most three bytes free. Writing a statement
logs one event: this shows the longest front of two hundred bytes, and says that something is left
out exactly if the statement takes more. -/
theorem build_shows_front (room : Nat) (text : String) (s : Select) :
    (String.Pos.Raw.IsValid text ⟨Text.backOff text room⟩ ∧
      (Text.clip room text).utf8ByteSize = Text.backOff text room) ∧
    (∀ front, Text.IsLongestFront room text front ↔ front = Text.clip room text) ∧
    (Text.clip room text = text ↔ text.utf8ByteSize ≤ room) ∧
    (room < text.utf8ByteSize → room ≤ (Text.clip room text).utf8ByteSize + 3) ∧
    ∃ event, s.build = (s.query, [event]) ∧
      Text.IsLongestFront 200 s.query.sql event.sql ∧
      (event.truncated = true ↔ 200 < s.query.sql.utf8ByteSize) := by
  have hslice := Text.isValid_backOff text room
  have hclip := Text.isLongestFront_clip room text
  refine ⟨⟨hslice, Text.utf8ByteSize_clip room text⟩, fun front => Text.isLongestFront_iff,
    Text.clip_eq_self_iff, hclip.room_le, LogEvent.about "built statement" s.query, rfl, ?_, ?_⟩
  · exact Text.isLongestFront_clip 200 s.query.sql
  · exact LogEvent.truncated_about "built statement" s.query

/-- A statement of 201 bytes, the last two of which are one character. -/
def acrossLimit : Select :=
  ofTable .postgres (String.ofList (List.replicate 185 'x' ++ ['é'])) none

/-- The event ends in front of the last character, of which only the first byte would fit. -/
theorem build_shows_front_acrossLimit :
    200 < acrossLimit.query.sql.utf8ByteSize ∧
      200 ≤ (Text.clip 200 acrossLimit.query.sql).utf8ByteSize + 3 ∧
      ∃ event, acrossLimit.build = (acrossLimit.query, [event]) ∧ event.truncated = true ∧
        event.sql.utf8ByteSize = 199 := by
  have hlong : 200 < acrossLimit.query.sql.utf8ByteSize := by decide +kernel
  have hplace : Text.backOff acrossLimit.query.sql 200 = 199 := by decide +kernel
  obtain ⟨⟨-, hsize⟩, hfront, -, hfree, event, hbuild, hlongest, htruncated⟩ :=
    build_shows_front 200 acrossLimit.query.sql acrossLimit
  refine ⟨hlong, hfree hlong, event, hbuild, htruncated.2 hlong, ?_⟩
  rw [(hfront event.sql).1 hlongest, hsize]
  exact hplace

end Select

end BoundSelect
