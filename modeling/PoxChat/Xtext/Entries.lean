import PoxChat.Servlist.Networks

/-!
# Building an entry of the text view

The two builders of a `textentry` with a left and a right part: `gtk_xtext_append_indent`, for a message as it comes, and
`gtk_xtext_virt_materialize_msg`, for a row of the store that is shown again.

* `TextEntry` — the fields that hold the text.  `leftLen` and `strLen` are `gint16`, `str` is what was copied.
* `XtextBuffer` — what `gtk_xtext_virt_materialize_msg` looks at before it takes the text of the row.
* `appendIndent` — `none` where the cut leaves no right part: the code then reads in front of `right_text`, and copies a
  negative length.

Principal result: `rebuilt_iff` — a saved message reads the same after eviction if and only if its two parts have at most
4094 bytes together and its time is not read from the clock twice.
-/

set_option autoImplicit false

namespace PoxChat.Xtext

open Outbound Servlist

structure TextEntry where
  entryId : Nat
  stamp : Int
  leftLen : Int
  strLen : Int
  str : Bytes

def tab : UInt8 := 9

/-- A value stored in a `gint16`. -/
def gint16 (n : Int) : Int := n.bmod 65536

/-- `sizeof (xtext->scratch_buffer)`. -/
def scratchBuffer : Nat := 4096

/-- `gtk_xtext_init_entry`, for an entry with a row: the tabs of the text, the stamp and the id. -/
def initEntry (now : Int) (rowid : Nat) (stamp leftLen strLen : Int) (str : Bytes) : TextEntry where
  entryId := rowid
  stamp := if stamp = 0 then now else stamp
  leftLen := leftLen
  strLen := strLen
  str := str.mapIdx fun i c => if (i : Int) < strLen ∧ c = tab then space else c

/-- `gtk_xtext_append_indent` for a message that was saved as the row `rowid`. -/
def appendIndent (now : Int) (rowid : Nat) (left right : Bytes) (stamp : Int) : Option TextEntry :=
  let leftLen := left.length
  let rightLen : Int :=
    if leftLen + right.length + 2 ≥ scratchBuffer then (scratchBuffer : Int) - leftLen - 2 else right.length
  if rightLen ≤ 0 then none
  else
    let rightLen := rightLen.toNat
    let rightLen := if right[rightLen - 1]? = some newline then rightLen - 1 else rightLen
    some (initEntry now rowid stamp (gint16 leftLen) (gint16 (leftLen + 1 + rightLen))
      (left ++ space :: right.take rightLen))

structure ScrollbackMsg where
  id : Nat
  timestamp : Int
  msgid : Option Bytes
  text : Option Bytes

structure XtextBuffer where
  /-- The keys of `entries_by_id`. -/
  entriesById : List Nat
  joinMsgid : Option Bytes
  joinBannerText : Option Bytes
  /-- `prefs.hex_text_stripcolor_replay`, with what `strip_color` makes of a text. -/
  stripcolor : Option (Bytes → Bytes)

/-- The text that is shown for a row: its own, or the join banner, without its colours if they are stripped. -/
def XtextBuffer.shown (buf : XtextBuffer) (msg : ScrollbackMsg) (text : Bytes) : Bytes :=
  let text :=
    match buf.joinMsgid, buf.joinBannerText, msg.msgid with
    | some joinMsgid, some banner, some msgid => if msgid = joinMsgid then banner else text
    | _, _, _ => text
  match buf.stripcolor with
  | some strip => strip text
  | none => text

/-- `gtk_xtext_virt_materialize_msg`. -/
def virtMaterializeMsg (now : Int) (buf : XtextBuffer) (msg : ScrollbackMsg) : Option TextEntry :=
  match msg.text with
  | none => none
  | some text =>
    if cString text = [] then none
    else if 0 < msg.id ∧ msg.id ∈ buf.entriesById then none
    else
      let mtext := cString (buf.shown msg text)
      let textLen := if mtext.getLast? = some newline then mtext.length - 1 else mtext.length
      if tab ∈ mtext then
        let leftLen := mtext.idxOf tab
        let rightLen := textLen - leftLen - 1
        some (initEntry now msg.id msg.timestamp (gint16 leftLen) (gint16 (leftLen + 1 + rightLen))
          (mtext.take leftLen ++ space :: (mtext.drop (leftLen + 1)).take rightLen))
      else some (initEntry now msg.id msg.timestamp (-1) (gint16 textLen) (mtext.take textLen))

/-- The row that `scrollback_save_msg` saves for a message, by the clock `saved` if the message has no time of its own:
the left part, a tab, the right part and a newline. -/
def savedRow (saved : Int) (rowid : Nat) (left right : Bytes) (stamp : Int) (msgid : Option Bytes) :
    ScrollbackMsg where
  id := rowid
  timestamp := if stamp = 0 then saved else stamp
  msgid := msgid
  text := some (left ++ tab :: (right ++ [newline]))

/-- The length is that of the text, and the renderer can copy it. -/
def TextEntry.Sized (ent : TextEntry) : Prop := ent.strLen = ent.str.length ∧ ent.strLen < scratchBuffer

/-- The message reads the same after eviction. -/
def Rebuilt (live rebuilt : Option TextEntry) : Prop :=
  ∃ ent ent' : TextEntry, live = some ent ∧ rebuilt = some ent' ∧ ent = ent' ∧ ent.Sized ∧ ent'.Sized

/-! ## Both builders -/

theorem gint16_eq {n : Nat} (h : n < 32768) : gint16 n = n := by
  rw [gint16, Int.bmod_eq_of_le (by omega) (by omega)]

@[simp] theorem length_initEntry (now : Int) (rowid : Nat) (stamp leftLen strLen : Int) (str : Bytes) :
    (initEntry now rowid stamp leftLen strLen str).str.length = str.length :=
  List.length_mapIdx

@[simp] theorem initEntry_strLen (now : Int) (rowid : Nat) (stamp leftLen strLen : Int) (str : Bytes) :
    (initEntry now rowid stamp leftLen strLen str).strLen = strLen :=
  rfl

@[simp] theorem initEntry_stamp (now : Int) (rowid : Nat) (stamp leftLen strLen : Int) (str : Bytes) :
    (initEntry now rowid stamp leftLen strLen str).stamp = if stamp = 0 then now else stamp :=
  rfl

section Builders

variable {now now' saved stamp : Int} {rowid : Nat} {left right : Bytes} {buf : XtextBuffer} {msgid : Option Bytes}

/-- A row without banner and colours gives back both parts, whatever their lengths. -/
theorem virtMaterializeMsg_savedRow (hleft : tab ∉ left) (hnul : (0 : UInt8) ∉ left) (hnul' : (0 : UInt8) ∉ right)
    (hstrip : buf.stripcolor = none) (hbanner : buf.joinMsgid = none) (hfresh : rowid ∉ buf.entriesById) :
    virtMaterializeMsg now buf (savedRow saved rowid left right stamp msgid) =
      some (initEntry now rowid (if stamp = 0 then saved else stamp) (gint16 left.length)
        (gint16 (left.length + 1 + right.length)) (left ++ space :: right)) := by
  have hshown : buf.shown (savedRow saved rowid left right stamp msgid) (left ++ tab :: (right ++ [newline])) =
      left ++ tab :: (right ++ [newline]) := by
    rw [XtextBuffer.shown, hstrip, hbanner]
  have htext : cString (left ++ tab :: (right ++ [newline])) = left ++ tab :: (right ++ [newline]) := by
    refine cString_eq_self ?_
    have hbytes : (0 : UInt8) ≠ tab ∧ (0 : UInt8) ≠ newline := by decide
    simp [hnul, hnul', hbytes.1, hbytes.2]
  have hlast : (left ++ tab :: (right ++ [newline])).getLast? = some newline := by
    rw [← List.cons_append, ← List.append_assoc, List.getLast?_concat]
  have hidx : (left ++ tab :: (right ++ [newline])).idxOf tab = left.length := by
    rw [List.idxOf_append_of_notMem hleft, List.idxOf_cons_self, Nat.add_zero]
  have hlen : (left ++ tab :: (right ++ [newline])).length - 1 - left.length - 1 = right.length := by
    rw [List.length_append, List.length_cons, List.length_append, List.length_singleton]
    omega
  have hdrop : (left ++ tab :: (right ++ [newline])).drop (left.length + 1) = right ++ [newline] := by
    rw [← List.drop_drop, List.drop_left]
    rfl
  have hid : ¬ (0 < rowid ∧ rowid ∈ buf.entriesById) := fun h => hfresh h.2
  have htext' : cString (buf.shown (savedRow saved rowid left right stamp msgid) (left ++ tab :: (right ++ [newline]))) =
      left ++ tab :: (right ++ [newline]) := by
    rw [hshown, htext]
  show (if cString (left ++ tab :: (right ++ [newline])) = [] then none
    else if 0 < rowid ∧ rowid ∈ buf.entriesById then none else _) = _
  rw [htext, if_neg (by simp), if_neg hid, htext']
  simp only [hlast, if_pos, hidx]
  rw [if_pos (by simp), hlen, List.take_left, hdrop, List.take_left]
  rfl

/-- A message that fits is built from both its parts. -/
theorem appendIndent_fits (hright : right ≠ []) (hlast : right.getLast? ≠ some newline)
    (hfits : left.length + right.length ≤ 4094) :
    appendIndent now rowid left right stamp =
      some (initEntry now rowid stamp (gint16 left.length) (gint16 (left.length + 1 + right.length))
        (left ++ space :: right)) := by
  have hpos := List.length_pos_of_ne_nil hright
  have hsize : scratchBuffer = 4096 := rfl
  have hcut : (if left.length + right.length + 2 ≥ scratchBuffer then (scratchBuffer : Int) - left.length - 2
      else right.length) = right.length := by
    split <;> omega
  have hend : right[right.length - 1]? ≠ some newline := by
    rw [← List.getLast?_eq_getElem?]
    exact hlast
  simp only [appendIndent]
  rw [hcut, if_neg (by omega), Int.toNat_natCast, if_neg hend, List.take_length]

/-- A message that is longer is cut. -/
theorem appendIndent_cut (hlong : 4094 < left.length + right.length) {ent : TextEntry}
    (hent : appendIndent now rowid left right stamp = some ent) : ent.str.length ≤ 4095 := by
  have hsize : scratchBuffer = 4096 := rfl
  have hcut : (if left.length + right.length + 2 ≥ scratchBuffer then (scratchBuffer : Int) - left.length - 2
      else right.length) = 4094 - left.length := by
    rw [if_pos (by omega)]
    omega
  simp only [appendIndent] at hent
  rw [hcut] at hent
  split at hent
  · cases hent
  · next hroom =>
    obtain rfl := Option.some.inj hent
    rw [length_initEntry, List.length_append, List.length_cons, List.length_take]
    split <;> omega

/-- The entry that comes back has both parts whole, so it is not the one that was cut. -/
theorem not_rebuilt_of_long (hleft : tab ∉ left) (hnul : (0 : UInt8) ∉ left) (hnul' : (0 : UInt8) ∉ right)
    (hstrip : buf.stripcolor = none) (hbanner : buf.joinMsgid = none) (hfresh : rowid ∉ buf.entriesById)
    (hlong : 4094 < left.length + right.length) :
    ¬ Rebuilt (appendIndent now rowid left right stamp)
        (virtMaterializeMsg now' buf (savedRow saved rowid left right stamp msgid)) := by
  rintro ⟨ent, ent', hlive, hrow, hsame, -, -⟩
  rw [virtMaterializeMsg_savedRow hleft hnul hnul' hstrip hbanner hfresh] at hrow
  obtain rfl := Option.some.inj hrow
  have hshort := appendIndent_cut hlong hlive
  rw [hsame, length_initEntry, List.length_append, List.length_cons] at hshort
  omega

theorem initEntry_sized {leftLen : Int} (hfits : left.length + right.length ≤ 4094) :
    (initEntry now rowid stamp leftLen (gint16 (left.length + 1 + right.length)) (left ++ space :: right)).Sized := by
  have hlen : gint16 (left.length + 1 + right.length) = ((left.length + 1 + right.length : Nat) : Int) := by
    rw [← gint16_eq (n := left.length + 1 + right.length) (by omega)]
    push_cast
    rfl
  have hstr : (initEntry now rowid stamp leftLen (gint16 (left.length + 1 + right.length))
      (left ++ space :: right)).str.length = left.length + 1 + right.length := by
    rw [length_initEntry, List.length_append, List.length_cons]
    omega
  refine ⟨?_, ?_⟩
  · rw [initEntry_strLen, hstr, hlen]
  · have hsize : scratchBuffer = 4096 := rfl
    rw [initEntry_strLen, hlen, hsize]
    omega

/-- **A saved message reads the same after eviction** if and only if its two parts have at most 4094 bytes and, where
it has no time of its own, the clock did not move between the save and the entry. -/
theorem rebuilt_iff (hleft : tab ∉ left) (hnul : (0 : UInt8) ∉ left) (hright : right ≠ [])
    (hnul' : (0 : UInt8) ∉ right) (hlast : right.getLast? ≠ some newline) (hclock : 0 < saved)
    (hstrip : buf.stripcolor = none) (hbanner : buf.joinMsgid = none) (hfresh : rowid ∉ buf.entriesById) :
    Rebuilt (appendIndent now rowid left right stamp)
        (virtMaterializeMsg now' buf (savedRow saved rowid left right stamp msgid)) ↔
      left.length + right.length ≤ 4094 ∧ (stamp = 0 → now = saved) := by
  have hstamp : (if stamp = 0 then saved else stamp) ≠ 0 := by
    split <;> omega
  constructor
  · intro hrebuilt
    have hfits : left.length + right.length ≤ 4094 := by
      by_contra hlong
      exact not_rebuilt_of_long hleft hnul hnul' hstrip hbanner hfresh (by omega) hrebuilt
    refine ⟨hfits, fun hzero => ?_⟩
    obtain ⟨ent, ent', hlive, hrow, hsame, -, -⟩ := hrebuilt
    rw [virtMaterializeMsg_savedRow hleft hnul hnul' hstrip hbanner hfresh] at hrow
    obtain rfl := Option.some.inj hrow
    rw [appendIndent_fits hright hlast hfits] at hlive
    have hstamps := congrArg TextEntry.stamp ((Option.some.inj hlive).trans hsame)
    rw [initEntry_stamp, initEntry_stamp, if_neg hstamp, if_pos hzero, if_pos hzero] at hstamps
    exact hstamps
  · rintro ⟨hfits, hticks⟩
    rw [virtMaterializeMsg_savedRow hleft hnul hnul' hstrip hbanner hfresh]
    have hsame : initEntry now rowid stamp (gint16 left.length) (gint16 (left.length + 1 + right.length))
        (left ++ space :: right) =
        initEntry now' rowid (if stamp = 0 then saved else stamp) (gint16 left.length)
          (gint16 (left.length + 1 + right.length)) (left ++ space :: right) := by
      rw [initEntry, initEntry, if_neg hstamp]
      by_cases hzero : stamp = 0
      · rw [if_pos hzero, if_pos hzero, hticks hzero]
      · rw [if_neg hzero, if_neg hzero]
    exact ⟨_, _, appendIndent_fits hright hlast hfits, rfl, hsame, initEntry_sized hfits, initEntry_sized hfits⟩

end Builders

/-- A buffer whose window has moved away from the row 7. -/
def scrolledAway : XtextBuffer where
  entriesById := [8, 9]
  joinMsgid := none
  joinBannerText := none
  stripcolor := none

theorem greeting_rebuilt :
    Rebuilt (appendIndent 1700000000 7 (bytes "ann") (bytes "hello\tall\nof you") 1699999999)
      (virtMaterializeMsg 1700000100 scrolledAway
        (savedRow 1700000000 7 (bytes "ann") (bytes "hello\tall\nof you") 1699999999 none)) :=
  (rebuilt_iff (by decide) (by decide) (by decide) (by decide) (by decide)
    (by decide) rfl rfl (by decide)).mpr ⟨by decide, by decide⟩

/-- A paste of 4094 bytes after a nick of one: the live entry loses the last byte, the one from the row has 4096. -/
theorem long_paste_not_rebuilt :
    ¬ Rebuilt (appendIndent 1700000000 7 [97] (List.replicate 4094 120) 1699999999)
      (virtMaterializeMsg 1700000100 scrolledAway
        (savedRow 1700000000 7 [97] (List.replicate 4094 120) 1699999999 none)) :=
  not_rebuilt_of_long (by decide) (by decide) (fun h => by simpa using List.eq_of_mem_replicate h) rfl rfl (by decide)
    (by rw [List.length_replicate]; decide)

end PoxChat.Xtext
