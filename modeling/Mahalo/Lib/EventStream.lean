/-
Event streams, as a browser reads them.

The text is cut into lines, each ended by a CR and LF, an LF or a CR; what is behind the
last end is dropped.  A line that starts with a colon is a comment, any other is a field
with its name before the first colon and its value behind it, less one space.  Fields
set up the next event, and an empty line dispatches it unless it has no data.

Behind an LF a line starts anew, whatever was before.  A piece of text that was meant as
one line is one if there is no LF in it and no CR but at its end, where that goes
together with the LF that ends the line.

A reader sees a stream grow, and may see the end of it cut off in the middle of a
character.  What it has dispatched by then is the beginning of what it would dispatch.
-/
import Mahalo.Lib.Utf8

namespace EventStream

abbrev Text := List Char

/-! ### Lines -/

/-- The lines of a text, behind a CR or not, with the beginning of the first. -/
def linesFrom : Bool → Text → Text → List Text
  | _, _, [] => []
  | afterCr, line, c :: rest =>
      if c = '\n' then (if afterCr then [] else [line]) ++ linesFrom false [] rest
      else if c = '\r' then line :: linesFrom true [] rest
      else linesFrom false (line ++ [c]) rest

def lines (text : Text) : List Text := linesFrom false [] text

/-- One line and no more, once an LF is put behind it. -/
structure OneLine (text : Text) : Prop where
  noLf : '\n' ∉ text
  noCr : '\r' ∉ text.dropLast

instance : DecidablePred OneLine := fun text =>
  decidable_of_iff ('\n' ∉ text ∧ '\r' ∉ text.dropLast) ⟨fun h => ⟨h.1, h.2⟩, fun h => ⟨h.noLf, h.noCr⟩⟩

/-- A line as it is read: a CR at its end belongs to the end of the line. -/
def withoutCr (text : Text) : Text := if text.getLast? = some '\r' then text.dropLast else text

theorem oneLine_nil : OneLine [] := ⟨List.not_mem_nil, List.not_mem_nil⟩

theorem oneLine_cons {c : Char} {text : Text} (hlf : c ≠ '\n') (hcr : c ≠ '\r') :
    OneLine (c :: text) ↔ OneLine text := by
  have hdrop : '\r' ∈ (c :: text).dropLast ↔ '\r' ∈ text.dropLast := by
    cases text with
    | nil => simp
    | cons d rest => simp [Ne.symm hcr]
  constructor
  · intro h
    exact ⟨fun hmem => h.noLf (List.mem_cons_of_mem _ hmem), fun hmem => h.noCr (hdrop.mpr hmem)⟩
  · intro h
    refine ⟨?_, fun hmem => h.noCr (hdrop.mp hmem)⟩
    simp [Ne.symm hlf, h.noLf]

/-- Text without a line end in front does not change whether there is one line. -/
theorem oneLine_append {front text : Text} (hlf : '\n' ∉ front) (hcr : '\r' ∉ front) :
    OneLine (front ++ text) ↔ OneLine text := by
  induction front with
  | nil => rfl
  | cons c front ih =>
      simp only [List.mem_cons, not_or] at hlf hcr
      rw [List.cons_append, oneLine_cons (Ne.symm hlf.1) (Ne.symm hcr.1), ih hlf.2 hcr.2]

theorem withoutCr_cons {c : Char} (hcr : c ≠ '\r') (text : Text) :
    withoutCr (c :: text) = c :: withoutCr text := by
  cases text with
  | nil => simp [withoutCr, hcr]
  | cons d rest =>
      simp only [withoutCr, List.getLast?_cons_cons, List.dropLast_cons_cons]
      split_ifs <;> rfl

theorem withoutCr_append {front : Text} (hcr : '\r' ∉ front) (text : Text) :
    withoutCr (front ++ text) = front ++ withoutCr text := by
  induction front with
  | nil => rfl
  | cons c front ih =>
      simp only [List.mem_cons, not_or] at hcr
      rw [List.cons_append, withoutCr_cons (Ne.symm hcr.1), ih hcr.2, List.cons_append]

theorem withoutCr_of_not_mem {text : Text} (hcr : '\r' ∉ text) : withoutCr text = text :=
  if_neg fun h => hcr (List.mem_of_getLast? h)

/-- Behind an LF a line starts anew. -/
theorem linesFrom_append (text rest : Text) : ∀ afterCr line,
    linesFrom afterCr line (text ++ '\n' :: rest) = linesFrom afterCr line (text ++ ['\n']) ++ lines rest := by
  induction text with
  | nil =>
      intro afterCr line
      simp [linesFrom, lines]
  | cons c text ih =>
      intro afterCr line
      simp only [List.cons_append, linesFrom]
      split_ifs <;> simp [ih]

theorem linesFrom_ne_nil (text : Text) : ∀ line, linesFrom false line (text ++ ['\n']) ≠ [] := by
  induction text with
  | nil => simp [linesFrom]
  | cons c text ih =>
      intro line
      simp only [List.cons_append, linesFrom]
      split_ifs <;> simp [ih]

/-- Behind a CR there is another line, unless the LF comes next. -/
theorem linesFrom_afterCr (text : Text) : linesFrom true [] (text ++ ['\n']) = [] ↔ text = [] := by
  cases text with
  | nil => simp [linesFrom]
  | cons c text =>
      simp only [List.cons_append, linesFrom]
      split_ifs <;> simp [linesFrom_ne_nil]

/-- **One line is read exactly if the text was one.** -/
theorem linesFrom_one (text : Text) : ∀ line,
    (linesFrom false line (text ++ ['\n'])).length = 1 ↔ OneLine text := by
  induction text with
  | nil => simp [linesFrom, oneLine_nil]
  | cons c text ih =>
      intro line
      by_cases hlf : c = '\n'
      · subst hlf
        refine iff_of_false ?_ fun h => h.noLf (List.mem_cons_self ..)
        simp [linesFrom, linesFrom_ne_nil]
      · by_cases hcr : c = '\r'
        · subst hcr
          have hend : OneLine ('\r' :: text) ↔ text = [] := by
            cases text with
            | nil => exact iff_of_true (by decide) rfl
            | cons d rest => exact iff_of_false (fun h => h.noCr (by simp)) (List.cons_ne_nil d rest)
          rw [hend, ← linesFrom_afterCr, List.cons_append, linesFrom, if_neg hlf, if_pos rfl, List.length_cons]
          simp
        · rw [oneLine_cons hlf hcr, List.cons_append, linesFrom, if_neg hlf, if_neg hcr]
          exact ih _

theorem linesFrom_oneLine {text : Text} (h : OneLine text) : ∀ line,
    linesFrom false line (text ++ ['\n']) = [line ++ withoutCr text] := by
  induction text with
  | nil => simp [linesFrom, withoutCr]
  | cons c text ih =>
      intro line
      have hlf : c ≠ '\n' := fun hc => h.noLf (hc ▸ List.mem_cons_self ..)
      by_cases hcr : c = '\r'
      · subst hcr
        cases text with
        | nil => simp [linesFrom, withoutCr]
        | cons d rest => exact absurd (by simp) h.noCr
      · rw [List.cons_append, linesFrom, if_neg hlf, if_neg hcr, ih ((oneLine_cons hlf hcr).mp h)]
        simp [withoutCr_cons hcr]

theorem lines_append (text rest : Text) : lines (text ++ '\n' :: rest) = lines (text ++ ['\n']) ++ lines rest :=
  linesFrom_append text rest false []

/-- Pieces with an LF behind each are read one by one. -/
theorem lines_pieces (pieces : List Text) (rest : Text) :
    lines (pieces.flatMap (· ++ ['\n']) ++ rest)
      = pieces.flatMap (fun piece => lines (piece ++ ['\n'])) ++ lines rest := by
  induction pieces with
  | nil => rfl
  | cons piece pieces ih =>
      simp only [List.flatMap_cons, List.append_assoc, List.cons_append, List.nil_append]
      rw [lines_append, ih]

/-- Pieces are as many lines only if each is one. -/
theorem length_lines_pieces (pieces : List Text) :
    (pieces.flatMap fun piece => lines (piece ++ ['\n'])).length = pieces.length ↔
      ∀ piece ∈ pieces, OneLine piece := by
  have hmin : ∀ pieces : List Text,
      pieces.length ≤ (pieces.flatMap fun piece => lines (piece ++ ['\n'])).length := by
    intro pieces
    induction pieces with
    | nil => exact Nat.le_refl 0
    | cons piece pieces ih =>
        have hpiece := List.length_pos_iff.mpr (linesFrom_ne_nil piece [])
        rw [List.flatMap_cons, List.length_append, List.length_cons, lines]
        omega
  induction pieces with
  | nil => simp
  | cons piece pieces ih =>
      have hpiece := List.length_pos_iff.mpr (linesFrom_ne_nil piece [])
      have hrest := hmin pieces
      have hone := linesFrom_one piece []
      rw [List.forall_mem_cons, List.flatMap_cons, List.length_append, List.length_cons, lines]
      constructor
      · intro h
        exact ⟨hone.mp (by omega), ih.mp (by omega)⟩
      · intro ⟨hfirst, hall⟩
        have := hone.mpr hfirst
        have := ih.mpr hall
        omega

theorem lines_oneLines {pieces : List Text} (h : ∀ piece ∈ pieces, OneLine piece) (rest : Text) :
    lines (pieces.flatMap (· ++ ['\n']) ++ rest) = pieces.map withoutCr ++ lines rest := by
  induction pieces with
  | nil => rfl
  | cons piece pieces ih =>
      rw [List.forall_mem_cons] at h
      simp only [List.flatMap_cons, List.append_assoc, List.cons_append, List.nil_append]
      rw [lines_append, ih h.2, lines, linesFrom_oneLine h.1]
      rfl

/-- Text that is one block for the reader: lines that are not empty, and an empty one behind them. -/
structure OneBlock (text : Text) (block : List Text) : Prop where
  complete : text.getLast? = some '\n'
  read : lines text = block ++ [[]]
  noBlank : [] ∉ block

/-- **Pieces and an empty line are one block of as many lines exactly if each piece is a line.** -/
theorem oneBlock_iff {pieces : List Text} (hne : ∀ piece ∈ pieces, withoutCr piece ≠ []) :
    (∃ block, OneBlock (pieces.flatMap (· ++ ['\n']) ++ ['\n']) block ∧ block.length = pieces.length) ↔
      ∀ piece ∈ pieces, OneLine piece := by
  constructor
  · intro ⟨block, hblock, hlength⟩
    have hlines := hblock.read
    rw [lines_pieces, show lines ['\n'] = [[]] from rfl] at hlines
    rw [← length_lines_pieces, List.append_cancel_right hlines]
    exact hlength
  · intro h
    refine ⟨pieces.map withoutCr, ⟨List.getLast?_concat .., lines_oneLines h ['\n'], ?_⟩, List.length_map ..⟩
    intro hmem
    obtain ⟨piece, hpiece, hblank⟩ := List.mem_map.mp hmem
    exact hne piece hpiece hblank

/-- The block of pieces that are lines. -/
theorem OneBlock.eq_pieces {pieces block : List Text} (h : ∀ piece ∈ pieces, OneLine piece)
    (hblock : OneBlock (pieces.flatMap (· ++ ['\n']) ++ ['\n']) block) : block = pieces.map withoutCr := by
  have hlines := hblock.read
  rw [lines_oneLines h, show lines ['\n'] = [[]] from rfl] at hlines
  exact (List.append_cancel_right hlines).symm

/-! ### Fields and events -/

inductive Line where
  | comment (text : Text)
  | field (name value : Text)
  deriving DecidableEq, Repr

/-- Less one space in front. -/
def withoutSpace (value : Text) : Text := if value.head? = some ' ' then value.tail else value

/-- What a line is that is not empty. -/
def readLine (line : Text) : Line :=
  if line.head? = some ':' then .comment line.tail
  else .field (line.takeWhile (· != ':')) (withoutSpace (line.dropWhile (· != ':')).tail)

/-- The name of a field. -/
def Line.name : Line → Option Text
  | .comment _ => none
  | .field name _ => some name

/-- A name, a colon and a space in front of a value make it a field. -/
theorem readLine_field {name : Text} (hne : name ≠ []) (hcolon : ':' ∉ name) (value : Text) :
    readLine (name ++ ':' :: ' ' :: value) = .field name value := by
  have hhead : (name ++ ':' :: ' ' :: value).head? ≠ some ':' := by
    cases name with
    | nil => exact absurd rfl hne
    | cons c name =>
        intro h
        exact hcolon (Option.some.inj h ▸ List.mem_cons_self ..)
  have hname : ∀ c ∈ name, (c != ':') = true := by
    intro c hc
    exact bne_iff_ne.mpr fun h => hcolon (h ▸ hc)
  unfold readLine
  rw [if_neg hhead, List.takeWhile_append_of_pos hname, List.dropWhile_append_of_pos hname]
  simp [withoutSpace]

/-- What the fields so far have set up. -/
structure Buffers where
  data : Text
  type : Text
  lastId : Text
  retry : Option Nat

def Buffers.empty : Buffers := { data := [], type := [], lastId := [], retry := none }

/-- The value of digits. -/
def decimal (digits : Text) : Nat := digits.foldl (fun n c => n * 10 + (c.toNat - 48)) 0

def Buffers.field (b : Buffers) (name value : Text) : Buffers :=
  if name = "event".toList then { b with type := value }
  else if name = "data".toList then { b with data := b.data ++ value ++ ['\n'] }
  else if name = "id".toList then (if '\x00' ∈ value then b else { b with lastId := value })
  else if name = "retry".toList then
    (if value.all (·.isDigit) then { b with retry := some (decimal value) } else b)
  else b

def Buffers.line (b : Buffers) : Line → Buffers
  | .comment _ => b
  | .field name value => b.field name value

/-- An event as it is dispatched. -/
structure Message where
  type : Text
  data : Text
  lastId : Text
  deriving DecidableEq, Repr

/-- The events that the lines dispatch; the data has an LF behind each of its lines, and loses the last. -/
def interpret : Buffers → List Text → List Message
  | _, [] => []
  | b, [] :: rest =>
      (if b.data = [] then [] else [{ type := b.type, data := b.data.dropLast, lastId := b.lastId }])
        ++ interpret { b with data := [], type := [] } rest
  | b, line :: rest => interpret (b.line (readLine line)) rest

/-- Lines of data are put together, with an LF behind each. -/
theorem interpret_data (values : List Text) (rest : List Text) : ∀ b,
    interpret b (values.map ("data: ".toList ++ ·) ++ rest)
      = interpret { b with data := b.data ++ values.flatMap (· ++ ['\n']) } rest := by
  induction values with
  | nil => simp
  | cons value values ih =>
      intro b
      have hne : "data".toList ≠ [] := by decide
      have hread : readLine ("data: ".toList ++ value) = .field "data".toList value :=
        readLine_field hne (by decide) value
      have hline : b.line (readLine ("data: ".toList ++ value)) = { b with data := b.data ++ value ++ ['\n'] } := by
        rw [hread]
        rfl
      rw [List.map_cons, List.cons_append, interpret, hline, ih]
      · simp
      · simp

/-- A line for the type sets it. -/
theorem interpret_type (value : Text) (rest : List Text) (b : Buffers) :
    interpret b (("event: ".toList ++ value) :: rest) = interpret { b with type := value } rest := by
  have hne : "event".toList ≠ [] := by decide
  have hread : readLine ("event: ".toList ++ value) = .field "event".toList value :=
    readLine_field hne (by decide) value
  have hline : b.line (readLine ("event: ".toList ++ value)) = { b with type := value } := by
    rw [hread]
    rfl
  rw [interpret, hline]
  simp

theorem interpret_dispatch {b : Buffers} (h : b.data ≠ []) (rest : List Text) :
    interpret b ([] :: rest) = { type := b.type, data := b.data.dropLast, lastId := b.lastId }
      :: interpret { b with data := [], type := [] } rest := by
  rw [interpret, if_neg h]
  rfl

/-- The text of a stream, without a byte order mark in front. -/
def decode (bytes : List UInt8) : Text :=
  let text := (RustStd.fromUtf8Lossy bytes).toList
  if text.head? = some '\uFEFF' then text.tail else text

/-- The events of a stream. -/
def events (bytes : List UInt8) : List Message := interpret .empty (lines (decode bytes))

example : events (RustStd.asBytes ":x\r\nevent: e\ndata:  a\rdata\n\nid: 1\n\n")
    = [{ type := "e".toList, data := " a\n".toList, lastId := [] }] := by decide

theorem decode_asBytes {s : String} (h : s.toList.head? ≠ some '\uFEFF') :
    decode (RustStd.asBytes s) = s.toList := by
  unfold decode
  rw [RustStd.fromUtf8Lossy_encode]
  exact if_neg h

/-! ### A stream that grows -/

/-- What more text adds to the lines: nothing before it changes. -/
theorem linesFrom_prefix (text rest : Text) : ∀ afterCr line,
    linesFrom afterCr line text <+: linesFrom afterCr line (text ++ rest) := by
  induction text with
  | nil =>
      intro afterCr line
      exact List.nil_prefix
  | cons c text ih =>
      intro afterCr line
      simp only [List.cons_append, linesFrom]
      by_cases hlf : c = '\n'
      · rw [if_pos hlf, if_pos hlf]
        exact (List.prefix_append_right_inj _).mpr (ih _ _)
      · rw [if_neg hlf, if_neg hlf]
        split_ifs
        · exact List.cons_prefix_cons.mpr ⟨rfl, ih _ _⟩
        · exact ih _ _

/-- Text without a line end at the end of a stream is no line yet. -/
theorem linesFrom_open {rest : Text} (hlf : '\n' ∉ rest) (hcr : '\r' ∉ rest) (text : Text) : ∀ afterCr line,
    linesFrom afterCr line (text ++ rest) = linesFrom afterCr line text := by
  induction text with
  | nil =>
      induction rest with
      | nil => simp
      | cons c rest ih =>
          intro afterCr line
          simp only [List.mem_cons, not_or] at hlf hcr
          have hrest := ih hlf.2 hcr.2 false (line ++ [c])
          simp only [List.nil_append, linesFrom] at hrest ⊢
          rw [if_neg (Ne.symm hlf.1), if_neg (Ne.symm hcr.1), hrest]
  | cons c text ih =>
      intro afterCr line
      simp only [List.cons_append, linesFrom, ih]

/-- Texts that end a line each are read one by one. -/
theorem lines_flatMap {X : Type*} {f : X → Text} (xs : List X) (h : ∀ x ∈ xs, ∃ text, f x = text ++ ['\n']) :
    lines (xs.flatMap f) = xs.flatMap fun x => lines (f x) := by
  induction xs with
  | nil => rfl
  | cons x xs ih =>
      rw [List.forall_mem_cons] at h
      obtain ⟨text, htext⟩ := h.1
      rw [List.flatMap_cons, List.flatMap_cons, ← ih h.2, htext, List.append_assoc, List.singleton_append,
        lines_append]

/-- What lines have set up for those behind them. -/
def Buffers.after : Buffers → List Text → Buffers
  | b, [] => b
  | b, [] :: rest => after { b with data := [], type := [] } rest
  | b, line :: rest => after (b.line (readLine line)) rest

theorem interpret_append (xs ys : List Text) : ∀ b,
    interpret b (xs ++ ys) = interpret b xs ++ interpret (b.after xs) ys := by
  induction xs with
  | nil =>
      intro b
      rfl
  | cons line xs ih =>
      intro b
      cases line with
      | nil => simp [interpret, Buffers.after, ih]
      | cons c line => simp [interpret, Buffers.after, ih]

theorem after_append (xs ys : List Text) : ∀ b : Buffers, b.after (xs ++ ys) = (b.after xs).after ys := by
  induction xs with
  | nil =>
      intro b
      rfl
  | cons line xs ih =>
      intro b
      cases line with
      | nil => simp [Buffers.after, ih]
      | cons c line => simp [Buffers.after, ih]

/-- Nothing of the next event is set up yet. -/
structure Buffers.Clear (b : Buffers) : Prop where
  data : b.data = []
  type : b.type = []

theorem clear_empty : Buffers.empty.Clear := ⟨rfl, rfl⟩

theorem clear_after_blank (xs : List Text) (b : Buffers) : (b.after (xs ++ [[]])).Clear := by
  rw [after_append]
  exact ⟨rfl, rfl⟩

/-- A comment and an empty line between two events leave no trace. -/
theorem after_comment {b : Buffers} (h : b.Clear) {line : Text} (hline : line.head? = some ':') :
    b.after [line, []] = b ∧ interpret b [line, []] = [] := by
  cases line with
  | nil => cases hline
  | cons c line =>
      have hread : b.line (readLine (c :: line)) = b := by
        unfold readLine
        rw [if_pos hline]
        rfl
      have hsame : ({ b with data := [], type := [] } : Buffers) = b := by
        obtain ⟨hdata, htype⟩ := h
        cases b
        subst hdata htype
        rfl
      simp [Buffers.after, interpret, hread, hsame, h.data]

theorem interpret_prefix {xs ys : List Text} (h : xs <+: ys) (b : Buffers) : interpret b xs <+: interpret b ys := by
  obtain ⟨rest, rfl⟩ := h
  rw [interpret_append]
  exact List.prefix_append ..

/-- **A stream that is cut off anywhere dispatches the events before the cut**, and no others. -/
theorem events_prefix {s : String} (hmark : s.toList.head? ≠ some '\uFEFF') {bytes : List UInt8}
    (hbytes : bytes <+: RustStd.asBytes s) : events bytes <+: events (RustStd.asBytes s) := by
  obtain ⟨j, n, htext⟩ := RustStd.fromUtf8Lossy_take s bytes.length
  rw [← List.prefix_iff_eq_take.mp hbytes] at htext
  have hhead : (s.toList.take j ++ List.replicate n '\uFFFD').head? ≠ some '\uFEFF' := by
    cases hs : s.toList.take j with
    | nil => cases n <;> simp [List.replicate]
    | cons c rest =>
        have hc : s.toList.head? = some c := by
          rw [← List.take_append_drop j s.toList, hs]
          rfl
        rw [List.cons_append, List.head?_cons, ← hc]
        exact hmark
  have hdecode : decode bytes = s.toList.take j ++ List.replicate n '\uFFFD' := by
    unfold decode
    rw [htext]
    exact if_neg hhead
  unfold events
  rw [hdecode, decode_asBytes hmark]
  refine interpret_prefix ?_ _
  unfold lines
  rw [linesFrom_open (by simp) (by simp)]
  conv_rhs => rw [← List.take_append_drop j s.toList]
  exact linesFrom_prefix ..

end EventStream
