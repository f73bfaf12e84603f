/-
What a browser reads of the events.

`serialize` writes lines and an empty one.  A browser reads them as they were written if
each value that was written on a line is one line for it too: an event type or an id with
a line end in it is more, and so is a line of data or of a comment with a CR in it, since
`str::lines` does not split at a CR.  Data that is split at its line ends and put
together again loses an LF at its end, because `str::lines` does not tell whether the
last line ended.
-/
import Mahalo.Lib.EventStream
import Mahalo.Sse

namespace Mahalo.Sse

open RustStd EventStream

namespace Event

/-! ### The lines that are written -/

def commentLines (e : Event) : List Text :=
  match e.comment with
  | some comment => RustStd.lines comment.toList
  | none => []

def dataLines (e : Event) : List Text :=
  match e.data with
  | some data => if data.isEmpty then [[]] else RustStd.lines data.toList
  | none => []

/-- The part that is written as it is, if it is there. -/
def given (value : Option String) : List Text := (value.map String.toList).toList

def retryText (e : Event) : Option String := e.retry.map fun retry => toString retry.asMillis

def written (e : Event) : List Text :=
  e.commentLines.map (": ".toList ++ ·) ++ (given e.event).map ("event: ".toList ++ ·) ++
    (given e.id).map ("id: ".toList ++ ·) ++ (given e.retryText).map ("retry: ".toList ++ ·) ++
    e.dataLines.map ("data: ".toList ++ ·)

theorem writeLines_toList (head : String) (lines : List Text) : ∀ buf : String,
    (writeLines head buf lines).toList
      = buf.toList ++ (lines.map (head.toList ++ ·)).flatMap (· ++ ['\n']) := by
  unfold writeLines
  induction lines with
  | nil => simp
  | cons line lines ih =>
      intro buf
      rw [List.foldl_cons, ih]
      simp

theorem writeField_toList (head buf : String) (value : Option String) :
    (writeField head buf value).toList
      = buf.toList ++ ((given value).map (head.toList ++ ·)).flatMap (· ++ ['\n']) := by
  cases value <;> simp [writeField, given]

theorem writeData_toList (e : Event) (buf : String) : (writeData buf e.data).toList
    = buf.toList ++ (e.dataLines.map ("data: ".toList ++ ·)).flatMap (· ++ ['\n']) := by
  unfold writeData dataLines
  cases e.data with
  | none => simp
  | some data =>
      dsimp only
      split_ifs
      · simp
      · rw [writeLines_toList]

theorem writeComment_toList (e : Event) : (writeComment "" e.comment).toList
    = (e.commentLines.map (": ".toList ++ ·)).flatMap (· ++ ['\n']) := by
  unfold writeComment commentLines
  cases e.comment with
  | none => rfl
  | some comment => simp [writeLines_toList]

/-- The serialized event is the lines that were written, and an empty one. -/
theorem serialize_toList (e : Event) :
    e.serialize.toList = e.written.flatMap (· ++ ['\n']) ++ ['\n'] := by
  unfold serialize written
  dsimp only
  split_ifs with honly
  · simp only [Bool.and_eq_true, Option.isNone_iff_eq_none] at honly
    obtain ⟨⟨⟨⟨-, hdata⟩, hevent⟩, hid⟩, hretry⟩ := honly
    rw [String.toList_append, writeComment_toList]
    simp [dataLines, given, retryText, hdata, hevent, hid, hretry]
  · rw [String.toList_append, writeData_toList, writeField_toList, writeField_toList, writeField_toList,
      writeComment_toList]
    simp [retryText]

/-! ### What is one line -/

/-- What the browser is to read on one line each. -/
def values (e : Event) : List Text := e.commentLines ++ given e.event ++ given e.id ++ e.dataLines

/-- Each value is one line for the browser. -/
def Safe (e : Event) : Prop := ∀ value ∈ e.values, OneLine value

instance : DecidablePred Safe := fun e => inferInstanceAs (Decidable (∀ value ∈ e.values, OneLine value))

/-- What stands in front of the values. -/
def heads : List Text := [": ", "event: ", "id: ", "retry: ", "data: "].map String.toList

theorem heads_plain : ∀ head ∈ heads, head ≠ [] ∧ '\n' ∉ head ∧ '\r' ∉ head ∧ head.head? ≠ some '\uFEFF' := by
  decide

theorem written_head {e : Event} {line : Text} (h : line ∈ e.written) :
    ∃ head ∈ heads, ∃ value, line = head ++ value := by
  unfold written at h
  simp only [List.mem_append, List.mem_map] at h
  rcases h with (((⟨value, -, rfl⟩ | ⟨value, -, rfl⟩) | ⟨value, -, rfl⟩) | ⟨value, -, rfl⟩) | ⟨value, -, rfl⟩
  · exact ⟨_, by decide, value, rfl⟩
  · exact ⟨_, by decide, value, rfl⟩
  · exact ⟨_, by decide, value, rfl⟩
  · exact ⟨_, by decide, value, rfl⟩
  · exact ⟨_, by decide, value, rfl⟩

theorem retry_oneLine {e : Event} : ∀ value ∈ given e.retryText, OneLine value := by
  intro value hvalue
  unfold given retryText at hvalue
  cases hretry : e.retry with
  | none => simp [hretry] at hvalue
  | some retry =>
      have htext : value = Nat.toDigits 10 retry.asMillis := by
        simpa [hretry, Nat.toString_eq_ofList_toDigits] using hvalue
      have hdigit : ∀ c ∈ value, c.isDigit = true := by
        intro c hc
        rw [htext] at hc
        exact Nat.isDigit_of_mem_toDigits (by decide) (by decide) hc
      refine ⟨?_, ?_⟩
      · intro hlf
        exact absurd (hdigit _ hlf) (by decide)
      · intro hcr
        exact absurd (hdigit _ (List.dropLast_subset _ hcr)) (by decide)

/-- Each line that was written is one exactly if each value is. -/
theorem written_oneLines {e : Event} : (∀ line ∈ e.written, OneLine line) ↔ e.Safe := by
  have hhead : ∀ head ∈ heads, ∀ values : List Text,
      (∀ line ∈ values.map (head ++ ·), OneLine line) ↔ ∀ value ∈ values, OneLine value := by
    intro head hmem values
    obtain ⟨-, hlf, hcr, -⟩ := heads_plain head hmem
    rw [List.forall_mem_map]
    exact forall₂_congr fun value _ => oneLine_append hlf hcr
  unfold Safe written values
  simp only [List.forall_mem_append]
  rw [hhead _ (by decide), hhead _ (by decide), hhead _ (by decide), hhead _ (by decide), hhead _ (by decide)]
  have hretry := retry_oneLine (e := e)
  tauto

theorem written_noBlank {e : Event} : ∀ line ∈ e.written, withoutCr line ≠ [] := by
  intro line hline
  obtain ⟨head, hhead, value, rfl⟩ := written_head hline
  obtain ⟨hne, -, hcr, -⟩ := heads_plain head hhead
  rw [withoutCr_append hcr]
  simp [hne]

/-- The text begins with a line or with an LF, and so with no byte order mark. -/
theorem serialize_head (e : Event) : ∃ c rest, e.serialize.toList = c :: rest ∧ c ≠ '\uFEFF' := by
  rw [serialize_toList]
  cases hwritten : e.written with
  | nil => exact ⟨'\n', [], rfl, by decide⟩
  | cons line lines =>
      obtain ⟨head, hhead, value, rfl⟩ := written_head (hwritten ▸ List.mem_cons_self .. : line ∈ e.written)
      obtain ⟨hne, -, -, hmark⟩ := heads_plain head hhead
      cases head with
      | nil => exact absurd rfl hne
      | cons c head => exact ⟨c, _, rfl, by simpa using hmark⟩

theorem decode_serialize (e : Event) :
    decode (asBytes e.serialize) = e.written.flatMap (· ++ ['\n']) ++ ['\n'] := by
  rw [← serialize_toList]
  obtain ⟨c, rest, htext, hmark⟩ := e.serialize_head
  refine decode_asBytes ?_
  rw [htext]
  simpa using hmark

/-! ### What the browser makes of them -/

/-- The lines that the parts are to be: comments, and fields by their names. -/
def kinds (e : Event) : List (Option Text) :=
  e.commentLines.map (fun _ => none) ++ (given e.event).map (fun _ => some "event".toList) ++
    (given e.id).map (fun _ => some "id".toList) ++ (given e.retryText).map (fun _ => some "retry".toList) ++
    e.dataLines.map (fun _ => some "data".toList)

/-- A part of this kind was set. -/
def PartSet (e : Event) (kind : Option Text) : Prop :=
  kind = none ∧ e.comment ≠ none ∨ kind = some "event".toList ∧ e.event ≠ none ∨
    kind = some "id".toList ∧ e.id ≠ none ∨ kind = some "retry".toList ∧ e.retry ≠ none ∨
    kind = some "data".toList ∧ e.data ≠ none

/-- Lines that are those of the parts that were set. -/
structure OnlyParts (e : Event) (block : List Text) : Prop where
  set : ∀ line ∈ block, e.PartSet (readLine line).name
  eventOnce : block.countP (fun line => (readLine line).name == some "event".toList) ≤ 1
  idOnce : block.countP (fun line => (readLine line).name == some "id".toList) ≤ 1
  /-- as many as there are lines of values, so no value is a further one -/
  noMore : block.length = e.commentLines.length + (given e.event).length + (given e.id).length
    + (given e.retryText).length + e.dataLines.length

/-- The text is one block for the browser, of the parts that were set. -/
def Unforged (e : Event) (text : Text) : Prop := ∃ block, OneBlock text block ∧ e.OnlyParts block

theorem length_written (e : Event) : e.written.length = e.commentLines.length + (given e.event).length
    + (given e.id).length + (given e.retryText).length + e.dataLines.length := by
  unfold written
  simp only [List.length_append, List.length_map]

theorem names_written (e : Event) :
    (e.written.map withoutCr).map (fun line => (readLine line).name) = e.kinds := by
  have hcomment : ∀ value : Text, (readLine (withoutCr (": ".toList ++ value))).name = none := by
    intro value
    rw [withoutCr_append (by decide)]
    rfl
  have hfield : ∀ head name : Text, head = name ++ ": ".toList → name ≠ [] → ':' ∉ name → '\r' ∉ name →
      ∀ value : Text, (readLine (withoutCr (head ++ value))).name = some name := by
    intro head name hhead hne hcolon hcr value
    rw [hhead, withoutCr_append (by simp [hcr]), List.append_assoc]
    exact congrArg Line.name (readLine_field hne hcolon (withoutCr value))
  have hevent := hfield "event: ".toList "event".toList (by decide) (by decide) (by decide) (by decide)
  have hid := hfield "id: ".toList "id".toList (by decide) (by decide) (by decide) (by decide)
  have hretry := hfield "retry: ".toList "retry".toList (by decide) (by decide) (by decide) (by decide)
  have hdata := hfield "data: ".toList "data".toList (by decide) (by decide) (by decide) (by decide)
  unfold written kinds
  simp only [List.map_append, List.map_map, Function.comp_def, hcomment, hevent, hid, hretry, hdata]

theorem kinds_set {e : Event} : ∀ kind ∈ e.kinds, e.PartSet kind := by
  intro kind hkind
  unfold kinds at hkind
  simp only [List.mem_append, List.mem_map] at hkind
  unfold PartSet
  rcases hkind with (((⟨value, hvalue, rfl⟩ | ⟨value, hvalue, rfl⟩) | ⟨value, hvalue, rfl⟩) | ⟨value, hvalue, rfl⟩)
    | ⟨value, hvalue, rfl⟩
  · have hset : e.comment ≠ none := by
      intro hnone
      simp [commentLines, hnone] at hvalue
    exact Or.inl ⟨rfl, hset⟩
  · have hset : e.event ≠ none := by
      intro hnone
      simp [given, hnone] at hvalue
    exact Or.inr (Or.inl ⟨rfl, hset⟩)
  · have hset : e.id ≠ none := by
      intro hnone
      simp [given, hnone] at hvalue
    exact Or.inr (Or.inr (Or.inl ⟨rfl, hset⟩))
  · have hset : e.retry ≠ none := by
      intro hnone
      simp [given, retryText, hnone] at hvalue
    exact Or.inr (Or.inr (Or.inr (Or.inl ⟨rfl, hset⟩)))
  · have hset : e.data ≠ none := by
      intro hnone
      simp [dataLines, hnone] at hvalue
    exact Or.inr (Or.inr (Or.inr (Or.inr ⟨rfl, hset⟩)))

theorem length_given (value : Option String) : (given value).length ≤ 1 := by
  cases value <;> simp [given]

/-- The event type and the id are on one line each. -/
theorem kinds_once (e : Event) : e.kinds.countP (· == some "event".toList) ≤ 1 ∧
    e.kinds.countP (· == some "id".toList) ≤ 1 := by
  have hconst : ∀ (values : List Text) (b : Bool), values.countP (fun _ => b) = if b then values.length else 0 := by
    intro values b
    cases b <;> simp
  have hevent : ((none : Option Text) == some "event".toList) = false ∧
      (some "event".toList == some "event".toList) = true ∧ (some "id".toList == some "event".toList) = false ∧
      (some "retry".toList == some "event".toList) = false ∧
      (some "data".toList == some "event".toList) = false := by decide
  have hid : ((none : Option Text) == some "id".toList) = false ∧
      (some "event".toList == some "id".toList) = false ∧ (some "id".toList == some "id".toList) = true ∧
      (some "retry".toList == some "id".toList) = false ∧ (some "data".toList == some "id".toList) = false := by
    decide
  unfold kinds
  simp only [List.countP_append, List.countP_map, Function.comp_def, hconst]
  constructor
  · rw [hevent.1, hevent.2.1, hevent.2.2.1, hevent.2.2.2.1, hevent.2.2.2.2]
    have := length_given e.event
    simp only [Bool.false_eq_true, if_false, if_true]
    omega
  · rw [hid.1, hid.2.1, hid.2.2.1, hid.2.2.2.1, hid.2.2.2.2]
    have := length_given e.id
    simp only [Bool.false_eq_true, if_false, if_true]
    omega

/-- **An event is read as it was meant exactly if each of its values is one line.** -/
theorem unforged_iff_safe (e : Event) : e.Unforged (decode (asBytes e.serialize)) ↔ e.Safe := by
  rw [decode_serialize, ← written_oneLines]
  constructor
  · intro ⟨block, hblock, hparts⟩
    refine (oneBlock_iff written_noBlank).mp ⟨block, hblock, ?_⟩
    rw [hparts.noMore, length_written]
  · intro hlines
    obtain ⟨block, hblock, hlength⟩ := (oneBlock_iff written_noBlank).mpr hlines
    have hkinds : block.map (fun line => (readLine line).name) = e.kinds := by
      rw [hblock.eq_pieces hlines, names_written]
    have hcount : ∀ kind : Option Text, block.countP (fun line => (readLine line).name == kind)
        = e.kinds.countP (· == kind) := by
      intro kind
      rw [← hkinds, List.countP_map]
      rfl
    obtain ⟨hevent, hid⟩ := kinds_once e
    refine ⟨block, hblock, ?_, ?_, ?_, ?_⟩
    · intro line hline
      refine kinds_set _ ?_
      rw [← hkinds]
      exact List.mem_map_of_mem hline
    · rw [hcount]
      exact hevent
    · rw [hcount]
      exact hid
    · rw [hlength, length_written]

end Event

/-! ### The keep-alive comment -/

/-- The text is one comment for the browser. -/
def KeepAlive.Unforged (text : Text) : Prop :=
  ∃ line, OneBlock text [line] ∧ (readLine line).name = none

theorem keepAlive_unforged_iff (ka : KeepAlive) :
    KeepAlive.Unforged (decode ka.commentBytes) ↔ OneLine ka.text.toList := by
  have htext : (": " ++ ka.text ++ "\n\n").toList
      = [": ".toList ++ ka.text.toList].flatMap (· ++ ['\n']) ++ ['\n'] := by simp
  have hdecode : decode ka.commentBytes = [": ".toList ++ ka.text.toList].flatMap (· ++ ['\n']) ++ ['\n'] := by
    rw [← htext]
    refine decode_asBytes ?_
    simp
  have hshape : withoutCr (": ".toList ++ ka.text.toList) = ':' :: ' ' :: withoutCr ka.text.toList :=
    withoutCr_append (by decide) _
  have hone : (∀ line ∈ [": ".toList ++ ka.text.toList], OneLine line) ↔ OneLine ka.text.toList := by
    rw [List.forall_mem_singleton]
    exact oneLine_append (by decide) (by decide)
  have hblank : ∀ line ∈ [": ".toList ++ ka.text.toList], withoutCr line ≠ [] := by
    rw [List.forall_mem_singleton, hshape]
    exact List.cons_ne_nil _ _
  rw [hdecode, ← hone]
  constructor
  · intro ⟨line, hblock, _⟩
    exact (oneBlock_iff hblank).mp ⟨[line], hblock, rfl⟩
  · intro hlines
    obtain ⟨block, hblock, -⟩ := (oneBlock_iff hblank).mpr hlines
    have hpieces := hblock.eq_pieces hlines
    rw [List.map_singleton, hshape] at hpieces
    exact ⟨_, hpieces ▸ hblock, rfl⟩

/--
**When an event cannot be forged.**  For every event and every keep-alive comment: what
is sent for it is one block for the browser, of the parts that were set and of no other
line, if and only if each value that stands on a line is one line for the browser too.
-/
theorem unforged_iff (e : Event) (ka : KeepAlive) :
    (e.Unforged (decode (asBytes e.serialize)) ↔ e.Safe) ∧
      (KeepAlive.Unforged (decode ka.commentBytes) ↔ OneLine ka.text.toList) :=
  ⟨e.unforged_iff_safe, keepAlive_unforged_iff ka⟩

/-- An event whose type ends its line and goes on with data of its own. -/
def forgedEvent : Event := (Event.default.withData "hi").withEvent "x\ndata: forged\n"

/-- It is two events for the browser. -/
theorem forgedEvent_read : ¬forgedEvent.Unforged (decode (asBytes forgedEvent.serialize)) ∧
    events (asBytes forgedEvent.serialize) = [
      { type := "x".toList, data := "forged".toList, lastId := [] },
      { type := [], data := "hi".toList, lastId := [] }] := by
  refine ⟨?_, by decide⟩
  rw [Event.unforged_iff_safe]
  decide

/-! ### Data on the wire -/

/-- A line without a CR, put behind a character that is none. -/
theorem stripLineEnd_cons {c : Char} {piece : Text} (hne : piece ≠ []) (hcr : '\r' ∉ c :: piece) :
    stripLineEnd (c :: piece) = c :: stripLineEnd piece := by
  have hnot : ∀ text : Text, '\r' ∉ text → text.dropLast.getLast? ≠ some '\r' := by
    intro text htext h
    exact htext (List.dropLast_subset _ (List.mem_of_getLast? h))
  have htail : '\r' ∉ piece := fun h => hcr (List.mem_cons_of_mem _ h)
  unfold stripLineEnd
  rw [if_neg (hnot _ hcr), if_neg (hnot _ htail)]
  cases piece with
  | nil => exact absurd rfl hne
  | cons d rest =>
      rw [List.getLast?_cons_cons, List.dropLast_cons_cons]
      split_ifs <;> rfl

/-- One more character in front is a piece of its own behind an LF, or is put to the first piece. -/
theorem splitInclusive_cons {c : Char} {rest : Text} (hc : c ≠ '\n') (hne : rest ≠ []) :
    ∃ piece pieces, RustStd.splitInclusive rest '\n' = piece :: pieces ∧ piece ≠ [] ∧
      RustStd.splitInclusive (c :: rest) '\n' = (c :: piece) :: pieces := by
  have hpieces : ∃ piece pieces, RustStd.splitInclusive rest '\n' = piece :: pieces ∧ piece ≠ [] := by
    cases rest with
    | nil => exact absurd rfl hne
    | cons d rest =>
        unfold RustStd.splitInclusive
        split_ifs
        · exact ⟨_, _, rfl, by simp⟩
        · split
          · exact ⟨_, _, rfl, by simp⟩
          · exact ⟨_, _, rfl, by simp⟩
  obtain ⟨piece, pieces, hsplit, hpiece⟩ := hpieces
  refine ⟨piece, pieces, hsplit, hpiece, ?_⟩
  rw [RustStd.splitInclusive, if_neg hc, hsplit]

theorem flatten_splitInclusive (text : Text) : (RustStd.splitInclusive text '\n').flatten = text := by
  induction text with
  | nil => rfl
  | cons c rest ih =>
      by_cases hc : c = '\n'
      · rw [RustStd.splitInclusive, if_pos hc, List.flatten_cons, ih]
        rfl
      · by_cases hnil : rest = []
        · subst hnil
          simp [RustStd.splitInclusive, hc]
        · obtain ⟨piece, pieces, hsplit, -, hcons⟩ := splitInclusive_cons hc hnil
          rw [hsplit] at ih
          rw [hcons, List.flatten_cons, List.cons_append, ← ih, List.flatten_cons]

/-- Only the last character of a piece can be an LF. -/
theorem splitInclusive_lf (text : Text) : ∀ piece ∈ RustStd.splitInclusive text '\n', '\n' ∉ piece.dropLast := by
  induction text with
  | nil => simp [RustStd.splitInclusive]
  | cons c rest ih =>
      by_cases hc : c = '\n'
      · rw [RustStd.splitInclusive, if_pos hc, List.forall_mem_cons]
        exact ⟨by simp, ih⟩
      · by_cases hnil : rest = []
        · subst hnil
          simp [RustStd.splitInclusive, hc]
        · obtain ⟨piece, pieces, hsplit, hpiece, hcons⟩ := splitInclusive_cons hc hnil
          rw [hsplit, List.forall_mem_cons] at ih
          rw [hcons, List.forall_mem_cons, List.dropLast_cons_of_ne_nil hpiece]
          exact ⟨by simp [Ne.symm hc, ih.1], ih.2⟩

/-- A line of text without a CR has no line end in it. -/
theorem lines_plain {text : Text} (hcr : '\r' ∉ text) :
    ∀ line ∈ RustStd.lines text, '\n' ∉ line ∧ '\r' ∉ line := by
  unfold RustStd.lines
  rw [List.forall_mem_map]
  intro piece hpiece
  have hlf := splitInclusive_lf text piece hpiece
  have hcr : '\r' ∉ piece := by
    intro hmem
    rw [← flatten_splitInclusive text] at hcr
    exact hcr (List.mem_flatten_of_mem hpiece hmem)
  have hnot : piece.dropLast.getLast? ≠ some '\r' := by
    intro h
    exact hcr (List.dropLast_subset _ (List.mem_of_getLast? h))
  unfold stripLineEnd
  rw [if_neg hnot]
  split_ifs with hend
  · exact ⟨hlf, fun hmem => hcr (List.dropLast_subset _ hmem)⟩
  · refine ⟨fun hmem => ?_, hcr⟩
    obtain ⟨front, last, rfl⟩ := (List.eq_nil_or_concat' piece).resolve_left (List.ne_nil_of_mem hmem)
    rw [List.dropLast_concat] at hlf
    rw [List.getLast?_concat, Option.some_inj] at hend
    rcases List.mem_append.mp hmem with hfront | hlast
    · exact hlf hfront
    · exact hend (List.mem_singleton.mp hlast).symm

/-- Lines that are put together again, each with an LF behind it. -/
theorem flatMap_lines {text : Text} (hcr : '\r' ∉ text) (hne : text ≠ []) :
    (RustStd.lines text).flatMap (· ++ ['\n']) = if text.getLast? = some '\n' then text else text ++ ['\n'] := by
  induction text with
  | nil => exact absurd rfl hne
  | cons c rest ih =>
      have hrest : '\r' ∉ rest := fun h => hcr (List.mem_cons_of_mem _ h)
      by_cases hnil : rest = []
      · subst hnil
        by_cases hc : c = '\n'
        · subst hc
          decide
        · simp [RustStd.lines, RustStd.splitInclusive, hc, stripLineEnd]
      · have hlast : (c :: rest).getLast? = rest.getLast? := by
          cases rest with
          | nil => exact absurd rfl hnil
          | cons d rest => rfl
        have hstep : (RustStd.lines (c :: rest)).flatMap (· ++ ['\n'])
            = c :: (RustStd.lines rest).flatMap (· ++ ['\n']) := by
          unfold RustStd.lines
          by_cases hc : c = '\n'
          · subst hc
            rw [RustStd.splitInclusive, if_pos rfl]
            rfl
          · obtain ⟨piece, pieces, hsplit, hpiece, hcons⟩ := splitInclusive_cons hc hnil
            have hfirst : '\r' ∉ c :: piece := by
              intro hmem
              rw [← flatten_splitInclusive (c :: rest), hcons] at hcr
              exact hcr (List.mem_append_left _ hmem)
            rw [hcons, hsplit, List.map_cons, List.map_cons, List.flatMap_cons, List.flatMap_cons,
              stripLineEnd_cons hpiece hfirst]
            rfl
        rw [hstep, ih hrest hnil, hlast]
        split_ifs <;> rfl

/-! ### Data of a stream of events -/

/-- The events with these data, sent one after the other: what the server writes. -/
def dataStream (ds : List String) : List UInt8 :=
  (ds.foldl (fun queue d => SseSender.send queue (Event.default.withData d)) []).flatMap asBytes

/-- The data that arrives for a text: without an LF at its end. -/
def received (text : Text) : Text := if text.getLast? = some '\n' then text.dropLast else text

theorem dataLines_data {d : String} (hcr : '\r' ∉ d.toList) :
    (Event.default.withData d).dataLines.flatMap (· ++ ['\n']) ≠ [] ∧
      ((Event.default.withData d).dataLines.flatMap (· ++ ['\n'])).dropLast = received d.toList ∧
      ∀ line ∈ (Event.default.withData d).dataLines, '\n' ∉ line ∧ '\r' ∉ line := by
  unfold Event.dataLines
  dsimp only [Event.withData]
  split_ifs with hempty
  · have hnil : d.toList = [] := by simpa using hempty
    rw [hnil]
    decide
  · have hne : d.toList ≠ [] := by simpa using hempty
    rw [flatMap_lines hcr hne]
    refine ⟨?_, ?_, lines_plain hcr⟩
    · split_ifs
      · exact hne
      · simp
    · unfold received
      split_ifs
      · rfl
      · rw [List.dropLast_concat]

theorem written_data (d : String) :
    (Event.default.withData d).written = (Event.default.withData d).dataLines.map ("data: ".toList ++ ·) := by
  simp [Event.written, Event.commentLines, Event.given, Event.retryText, Event.default, Event.withData]

/-- What is sent for the data is their serialized events, one behind the other. -/
theorem dataStream_eq (ds : List String) : dataStream ds
    = asBytes (String.ofList (ds.flatMap fun d => (Event.default.withData d).serialize.toList)) := by
  have hqueue : ∀ queue : List String,
      (ds.foldl (fun queue d => SseSender.send queue (Event.default.withData d)) queue)
        = queue ++ ds.map fun d => (Event.default.withData d).serialize := by
    induction ds with
    | nil => simp
    | cons d ds ih =>
        intro queue
        rw [List.foldl_cons, ih]
        simp [SseSender.send]
  unfold dataStream asBytes
  rw [hqueue, String.toList_ofList, List.nil_append, List.flatMap_map, List.flatMap_assoc]

/-- The lines of such a stream are data lines and, behind those of each event, an empty one. -/
theorem lines_data {ds : List String} (hcr : ∀ d ∈ ds, '\r' ∉ d.toList) :
    EventStream.lines (ds.flatMap fun d => (Event.default.withData d).serialize.toList)
      = ds.flatMap fun d => (Event.default.withData d).dataLines.map ("data: ".toList ++ ·) ++ [[]] := by
  induction ds with
  | nil => rfl
  | cons d ds ih =>
      rw [List.forall_mem_cons] at hcr
      obtain ⟨-, -, hplain⟩ := dataLines_data hcr.1
      have hlines : ∀ line ∈ (Event.default.withData d).written, '\n' ∉ line ∧ '\r' ∉ line := by
        rw [written_data, List.forall_mem_map]
        intro line hline
        obtain ⟨hlf, hcr⟩ := hplain line hline
        exact ⟨by simp [hlf], by simp [hcr]⟩
      have hone : ∀ line ∈ (Event.default.withData d).written, OneLine line := by
        intro line hline
        obtain ⟨hlf, hcr⟩ := hlines line hline
        exact ⟨hlf, fun hmem => hcr (List.dropLast_subset _ hmem)⟩
      have hsame : (Event.default.withData d).written.map withoutCr = (Event.default.withData d).written := by
        refine (List.map_congr_left fun line hline => ?_).trans (List.map_id _)
        exact withoutCr_of_not_mem (hlines line hline).2
      rw [List.flatMap_cons, List.flatMap_cons, ← ih hcr.2, Event.serialize_toList, List.append_assoc,
        lines_oneLines hone, hsame, List.singleton_append, ← List.nil_append ('\n' :: _), lines_append, written_data,
        List.append_assoc]
      rfl

/-- Each event's data lines dispatch one event. -/
theorem interpret_stream {ds : List String} (hcr : ∀ d ∈ ds, '\r' ∉ d.toList) : ∀ b : Buffers, b.data = [] →
    (interpret b (ds.flatMap fun d => (Event.default.withData d).dataLines.map ("data: ".toList ++ ·) ++ [[]])).map
      (·.data) = ds.map fun d => received d.toList := by
  induction ds with
  | nil =>
      intro b _
      rfl
  | cons d ds ih =>
      intro b hb
      rw [List.forall_mem_cons] at hcr
      obtain ⟨hne, hdata, -⟩ := dataLines_data hcr.1
      rw [List.flatMap_cons, List.append_assoc, interpret_data, List.singleton_append, interpret_dispatch, List.map_cons,
        List.map_cons, ih hcr.2 _ rfl]
      · dsimp only
        rw [hb, List.nil_append, hdata]
      · rw [hb]
        exact hne

theorem events_dataStream {ds : List String} (hcr : ∀ d ∈ ds, '\r' ∉ d.toList) :
    (events (dataStream ds)).map (·.data) = ds.map fun d => received d.toList := by
  have hmark : (ds.flatMap fun d => (Event.default.withData d).serialize.toList).head? ≠ some '\uFEFF' := by
    cases ds with
    | nil => simp
    | cons d ds =>
        obtain ⟨c, rest, htext, hmark⟩ := (Event.default.withData d).serialize_head
        rw [List.flatMap_cons, htext]
        simpa using hmark
  unfold events
  rw [dataStream_eq, decode_asBytes (by rw [String.toList_ofList]; exact hmark), String.toList_ofList,
    lines_data hcr]
  exact interpret_stream hcr _ rfl

/--
**When data survive the wire.**  For every list of texts without a CR, sent as the data
of one event each: the browser dispatches one event for each text, in order and with
that text as its data, if and only if no text ends with an LF.
-/
theorem data_survives_iff (ds : List String) (hcr : ∀ d ∈ ds, '\r' ∉ d.toList) :
    (events (dataStream ds)).map (·.data) = ds.map String.toList ↔ ∀ d ∈ ds, d.toList.getLast? ≠ some '\n' := by
  rw [events_dataStream hcr, List.map_inj_left]
  refine forall₂_congr fun d _ => ?_
  unfold received
  split_ifs with hend
  · refine iff_of_false ?_ (not_not_intro hend)
    intro hsame
    have hlength := congrArg List.length hsame
    have hpos := List.length_pos_iff.mpr (List.ne_nil_of_mem (List.mem_of_getLast? hend))
    rw [List.length_dropLast] at hlength
    omega
  · exact iff_of_true rfl hend

theorem data_survives_iff_three : (events (dataStream [" a", "", "b\n\nc"])).map (·.data)
    = [" a", "", "b\n\nc"].map String.toList :=
  (data_survives_iff [" a", "", "b\n\nc"] (by decide)).mpr (by decide)

/-- A text with an LF at its end arrives without it. -/
theorem trailing_lf_lost : (events (dataStream ["a\n", "b"])).map (·.data) = ["a".toList, "b".toList] ∧
    ["a\n", "b"].map String.toList ≠ ["a".toList, "b".toList] := by decide

end Mahalo.Sse
