/-
What `matchit` takes and finds.

A path given to it is text with wildcards in braces: `{name}` stands for what is left of a
segment, `{*name}` for all that is left of the path, and two braces in a row are one that is
text.  `StaticFirst` is its documented priority: of the inserted paths that match, it finds the
one that has static text where another has a wildcard.  A path that could not be told from
one that is there is refused.

Where every path is plain, its parameters each filling a segment, that is the matching by
segments.
-/
import Mahalo.Lib.Wildcards
import Mahalo.Proofs.Router.Matchit

namespace Mahalo.Router

open Patterns Wildcards

/-! ### The language of paths -/

/-- A character of a path, or an end of a wildcard. -/
inductive Lexeme where
  | text (c : Char)
  | opens
  | closes
  deriving DecidableEq, Repr

def lexeme (c : Char) : Lexeme := if c = '\x7b' then .opens else if c = '\x7d' then .closes else .text c

/-- Two braces in a row stand for one that is text. -/
def unescape : List Char → List Lexeme
  | [] => []
  | [c] => [lexeme c]
  | c :: d :: rest =>
      if (c = '\x7b' ∨ c = '\x7d') ∧ d = c then .text c :: unescape rest else lexeme c :: unescape (d :: rest)

/-- What is left of a path, inside a wildcard whose name was read so far, or outside. -/
def tokensFrom : Option (List Char) → List Lexeme → Option (List (Token Char String))
  | none, [] => some []
  | none, .text c :: rest => (tokensFrom none rest).map (.char c :: ·)
  | none, .opens :: rest => tokensFrom (some []) rest
  | none, .closes :: _ => none
  | some _, [] => none
  | some name, .text c :: rest => tokensFrom (some (name ++ [c])) rest
  | some name, .opens :: rest => tokensFrom (some (name ++ ['\x7b'])) rest
  | some name, .closes :: rest =>
      match RustStd.stripPrefix name ['*'] with
      | some key => if rest = [] then some [.rest (String.ofList key)] else none
      | none =>
          if rest = [] ∨ rest.head? = some (.text '/') then
            (tokensFrom none rest).map (.param (String.ofList name) :: ·)
          else none

/-- The wildcards of a path and the text between them; `none` if the braces do not fit. -/
def tokensOf (pattern : String) : Option (List (Token Char String)) := tokensFrom none (unescape pattern.toList)

/-- The parameters, where the path of a request is one the pattern stands for. -/
def matchWildcards (pattern path : String) : Option PathParams :=
  (tokensOf pattern).bind fun ts => (matchTokens '/' ts path.toList).map fun bound =>
    bound.map fun (key, value) => (key, String.ofList value)

example : matchWildcards "/u_\x7bname\x7d/\x7b\x7bx\x7d\x7d/\x7b*rest\x7d" "/u_bob/\x7bx\x7d/a/b"
    = some [("name", "bob"), ("rest", "a/b")] := by decide +kernel

/-- The pattern has static text at the first place where just one of the two has a wildcard. -/
def preferred (pattern other : String) : Bool :=
  match tokensOf pattern, tokensOf other with
  | some ts, some us => moreSpecific ts us
  | _, _ => false

/-- Two patterns that `matchit` does not take both. -/
def conflict (pattern other : String) : Bool :=
  match tokensOf pattern, tokensOf other with
  | some ts, some us => clash ts us
  | _, _ => false

theorem conflict_comm (pattern other : String) : conflict pattern other = conflict other pattern := by
  unfold conflict
  cases tokensOf pattern <;> cases tokensOf other <;> simp [clash_comm]

theorem matchWildcards_isSome {pattern path : String} (h : (matchWildcards pattern path).isSome = true) :
    ∃ ts, tokensOf pattern = some ts ∧ (matchTokens '/' ts path.toList).isSome = true := by
  obtain ⟨params, hparams⟩ := Option.isSome_iff_exists.mp h
  obtain ⟨ts, hts, hmatch⟩ := Option.bind_eq_some_iff.mp hparams
  obtain ⟨bound, hbound, -⟩ := Option.map_eq_some_iff.mp hmatch
  exact ⟨ts, hts, by rw [hbound]; rfl⟩

/-- Of two patterns that match a path, one is preferred, or they conflict. -/
theorem preferred_total {pattern other path : String} (h : (matchWildcards pattern path).isSome = true)
    (h' : (matchWildcards other path).isSome = true) :
    preferred pattern other = true ∨ preferred other pattern = true ∨ conflict pattern other = true := by
  obtain ⟨ts, hts, hmatch⟩ := matchWildcards_isSome h
  obtain ⟨us, hus, hmatch'⟩ := matchWildcards_isSome h'
  unfold preferred conflict
  rw [hts, hus]
  exact moreSpecific_total hmatch hmatch'

/-! ### Which of them is found -/

/--
The most specific of the inserted paths that match is found, and a path is refused
if it could not be told from one that is there.
-/
structure StaticFirst (matchit : Matchit) : Prop where
  prefers : ∀ {router : Inserted} {path : String} {idx : Nat} {params : PathParams},
    Accepted matchit router → matchit.find router path = some (idx, params) →
      ∃ pattern, (pattern, idx) ∈ router ∧ matchWildcards pattern path = some params ∧
        ∀ other i, (other, i) ∈ router → (matchWildcards other path).isSome → preferred other pattern = false
  complete : ∀ {router : Inserted} {path pattern : String} {idx : Nat},
    Accepted matchit router → (pattern, idx) ∈ router → (matchWildcards pattern path).isSome →
      (matchit.find router path).isSome
  refuses : ∀ {router : Inserted} {path pattern : String} {idx : Nat},
    matchit.accepts router path = true → (pattern, idx) ∈ router → conflict pattern path = false

/-- Where the wildcards of a path are. -/
def shapeOf (pattern : String) : List Bool := (tokensOf pattern).elim [] shape

theorem shapeOf_lt {pattern other : String} (h : preferred pattern other = true) :
    shapeOf pattern < shapeOf other := by
  unfold preferred at h
  unfold shapeOf
  split at h
  · rename_i hts hus
    rw [hts, hus]
    exact shape_lt h
  · cases h

/-- A router that does as much: it looks at every path that was inserted. -/
def preferStatic : Matchit where
  accepts := fun router path => (tokensOf path).isSome && router.all fun entry => !conflict entry.1 path
  find := fun router path =>
    ((router.filter fun entry => (matchWildcards entry.1 path).isSome).argmin
      fun entry => shapeOf entry.1).bind fun entry =>
        (matchWildcards entry.1 path).map fun params => (entry.2, params)

theorem preferStatic_staticFirst : StaticFirst preferStatic where
  prefers := by
    intro router path idx params _ hfind
    obtain ⟨entry, hmin, hentry⟩ := Option.bind_eq_some_iff.mp hfind
    obtain ⟨found, hfound, heq⟩ := Option.map_eq_some_iff.mp hentry
    obtain ⟨rfl, rfl⟩ := Prod.mk.inj heq
    have hmem := List.mem_filter.mp (List.argmin_mem (Option.mem_def.mpr hmin))
    refine ⟨entry.1, hmem.1, hfound, ?_⟩
    intro other i hother hmatch
    have hin : (other, i) ∈ router.filter fun entry => (matchWildcards entry.1 path).isSome :=
      List.mem_filter.mpr ⟨hother, hmatch⟩
    have hleast := List.not_lt_of_mem_argmin hin (Option.mem_def.mpr hmin)
    rw [← Bool.not_eq_true]
    exact fun hpreferred => hleast (shapeOf_lt hpreferred)
  complete := by
    intro router path pattern idx _ hmem hmatch
    have hin : (pattern, idx) ∈ router.filter fun entry => (matchWildcards entry.1 path).isSome :=
      List.mem_filter.mpr ⟨hmem, hmatch⟩
    cases hmin : (router.filter fun entry => (matchWildcards entry.1 path).isSome).argmin
        fun entry => shapeOf entry.1 with
    | none =>
        rw [List.argmin_eq_none.mp hmin] at hin
        cases hin
    | some entry =>
        have hentry := (List.mem_filter.mp (List.argmin_mem (Option.mem_def.mpr hmin))).2
        obtain ⟨params, hparams⟩ := Option.isSome_iff_exists.mp hentry
        have hfind : preferStatic.find router path = some (entry.2, params) :=
          Option.bind_eq_some_iff.mpr ⟨entry, hmin, by rw [hparams]; rfl⟩
        rw [hfind]
        rfl
  refuses := by
    intro router path pattern idx haccepts hmem
    have := List.all_eq_true.mp (Bool.and_eq_true_iff.mp haccepts).2 (pattern, idx) hmem
    simpa using this

/-! ### Plain paths -/

/-- Static text without braces, or a parameter in braces and nothing else. -/
def plainPiece (segment : List Char) : Bool :=
  match bracedName segment with
  | some name => !name.contains '\x7b' && !name.contains '\x7d' && !RustStd.startsWith name ['*'] && !name.isEmpty
  | none => !segment.contains '\x7b' && !segment.contains '\x7d'

/-- Each segment of the path is static text or a parameter. -/
def Plain (pattern : String) : Prop := ∀ segment ∈ pieces pattern, plainPiece segment = true

instance (pattern : String) : Decidable (Plain pattern) :=
  inferInstanceAs (Decidable (∀ segment ∈ pieces pattern, plainPiece segment = true))

/-- A character that is not doubled is read as it is. -/
theorem unescape_cons {c : Char} {rest : List Char} (h : (c = '\x7b' ∨ c = '\x7d') → rest.head? ≠ some c) :
    unescape (c :: rest) = lexeme c :: unescape rest := by
  cases rest with
  | nil => rfl
  | cons d rest =>
      rw [unescape, if_neg]
      rintro ⟨hbrace, rfl⟩
      exact h hbrace rfl

theorem unescape_text {text after : List Char} (hopen : '\x7b' ∉ text) (hclose : '\x7d' ∉ text) :
    unescape (text ++ after) = text.map .text ++ unescape after := by
  induction text with
  | nil => rfl
  | cons c text ih =>
      simp only [List.mem_cons, not_or] at hopen hclose
      have hc : lexeme c = .text c := by
        unfold lexeme
        rw [if_neg (Ne.symm hopen.1), if_neg (Ne.symm hclose.1)]
      rw [List.cons_append, unescape_cons, hc, ih hopen.2 hclose.2]
      · rfl
      · rintro (rfl | rfl)
        · exact absurd rfl hopen.1
        · exact absurd rfl hclose.1

theorem tokensFrom_text (text : List Char) (rest : List Lexeme) :
    tokensFrom none (text.map .text ++ rest) = (tokensFrom none rest).map (text.map .char ++ ·) := by
  induction text with
  | nil => simp
  | cons c text ih =>
      rw [List.map_cons, List.cons_append, tokensFrom, ih, Option.map_map]
      rfl

theorem tokensFrom_name (name : List Char) (rest : List Lexeme) :
    ∀ read, tokensFrom (some read) (name.map .text ++ rest) = tokensFrom (some (read ++ name)) rest := by
  induction name with
  | nil => simp
  | cons c name ih =>
      intro read
      rw [List.map_cons, List.cons_append, tokensFrom, ih, List.append_assoc]
      rfl

theorem bracedName_eq_some {segment name : List Char} (h : bracedName segment = some name) :
    segment = '\x7b' :: name ++ ['\x7d'] := by
  obtain ⟨rest, hrest, hname⟩ := Option.bind_eq_some_iff.mp h
  split_ifs at hname with hends
  obtain rfl := Option.some.inj hname
  rw [RustStd.stripPrefix_eq_some.mp hrest]
  obtain ⟨front, rfl⟩ := List.isSuffixOf_iff_suffix.mp hends
  simp

/-- A plain piece in front of a slash, or of the end, is its tokens. -/
theorem tokensFrom_piece {segment after : List Char} (hplain : plainPiece segment = true)
    (hafter : Opens '/' id after) : tokensFrom none (unescape (segment ++ after))
      = (tokensFrom none (unescape after)).map (ofPiece (pieceOf segment) ++ ·) := by
  unfold plainPiece at hplain
  unfold pieceOf
  cases hname : bracedName segment with
  | none =>
      simp only [hname, Bool.and_eq_true, Bool.not_eq_true', List.contains_eq_mem, decide_eq_false_iff_not] at hplain
      rw [unescape_text hplain.1 hplain.2, tokensFrom_text]
      rfl
  | some name =>
      simp only [hname, Bool.and_eq_true, Bool.not_eq_true', List.contains_eq_mem, decide_eq_false_iff_not] at hplain
      obtain ⟨⟨⟨hopen, hclose⟩, hstar⟩, hempty⟩ := hplain
      rw [bracedName_eq_some hname]
      -- neither brace is doubled: behind the first is a name, and behind the last a slash or nothing
      have hfirst : unescape ('\x7b' :: (name ++ '\x7d' :: after)) = .opens :: unescape (name ++ '\x7d' :: after) := by
        refine unescape_cons fun _ h => ?_
        cases name with
        | nil => simp at hempty
        | cons c name => exact hopen (by simp_all)
      have hlast : unescape ('\x7d' :: after) = .closes :: unescape after := by
        refine unescape_cons fun _ h => ?_
        obtain rfl | ⟨rest, rfl⟩ := hafter
        · cases h
        · simp at h
      have hbehind : unescape after = [] ∨ (unescape after).head? = some (.text '/') := by
        obtain rfl | ⟨rest, rfl⟩ := hafter
        · exact Or.inl rfl
        · right
          rw [id_eq, unescape_cons (by simp)]
          rfl
      have hname' : RustStd.stripPrefix name ['*'] = none := by
        unfold RustStd.stripPrefix
        rw [hstar]
        rfl
      have hread : '\x7b' :: name ++ ['\x7d'] ++ after = '\x7b' :: (name ++ '\x7d' :: after) := by simp
      rw [hread, hfirst, unescape_text hopen hclose, hlast, tokensFrom, tokensFrom_name, List.nil_append, tokensFrom,
        hname']
      dsimp only
      rw [if_pos hbehind]
      rfl

theorem plain_separated {segments : List (List Char)} (hplain : ∀ s ∈ segments, plainPiece s = true) :
    tokensFrom none (unescape (segments.flatMap ('/' :: ·))) = some (separated '/' (segments.map pieceOf)) := by
  induction segments with
  | nil => rfl
  | cons s segments ih =>
      rw [List.flatMap_cons, List.cons_append, unescape_cons (by simp)]
      have hslash : lexeme '/' = .text '/' := rfl
      rw [hslash, tokensFrom, tokensFrom_piece (hplain s (List.mem_cons_self ..)) (flatMap_opens ..),
        ih fun t ht => hplain t (List.mem_cons_of_mem _ ht)]
      rfl

theorem exists_pieces (path : String) :
    ∃ t texts, pieces path = t :: texts ∧ path.toList = t ++ texts.flatMap ('/' :: ·) := by
  obtain ⟨t, texts, hsplit⟩ := RustStd.exists_split path.toList '/'
  refine ⟨t, texts, ?_, RustStd.split_append hsplit⟩
  unfold pieces
  rw [← RustStd.split_eq_splitOn, hsplit]

/-- **A plain path is matched segment by segment.** -/
theorem matchWildcards_plain {pattern : String} (hplain : Plain pattern) (path : String) :
    matchWildcards pattern path = matchPattern pattern path := by
  obtain ⟨s, segments, hsegments, hpattern⟩ := exists_pieces pattern
  obtain ⟨t, texts, htexts, hpath⟩ := exists_pieces path
  have hslash : ∀ piece ∈ s :: segments, '/' ∉ piece := hsegments ▸ slash_not_mem_pieces
  unfold Plain at hplain
  rw [hsegments] at hplain
  have htokens : tokensOf pattern = some (ofPiece (pieceOf s) ++ separated '/' (segments.map pieceOf)) := by
    unfold tokensOf
    rw [hpattern, tokensFrom_piece (hplain s (List.mem_cons_self ..)) (flatMap_opens ..),
      plain_separated fun t ht => hplain t (List.mem_cons_of_mem _ ht)]
    rfl
  have hlits : ∀ text, Piece.lit text ∈ pieceOf s :: segments.map pieceOf → '/' ∉ text := by
    intro text htext
    rw [← List.map_cons] at htext
    obtain ⟨piece, hpiece, htext⟩ := List.mem_map.mp htext
    unfold pieceOf at htext
    split at htext
    · cases htext
    · cases htext
      exact hslash _ hpiece
  have hpieces : ∀ piece ∈ pieces path, '/' ∉ piece := slash_not_mem_pieces
  have hmatch := matchTokens_pieces hlits (htexts ▸ hpieces)
  unfold matchWildcards matchPattern patternOf
  rw [htokens, Option.bind_some, hpath, hmatch, hsegments, htexts]
  rfl

/-- Of plain paths, one that matches segment by segment is found. -/
def FindsPlain (matchit : Matchit) : Prop :=
  ∀ {router : Inserted} {path : String} {idx : Nat} {params : PathParams},
    Accepted matchit router → (∀ entry ∈ router, Plain entry.1) → matchit.find router path = some (idx, params) →
      ∃ pattern, (pattern, idx) ∈ router ∧ matchPattern pattern path = some params

theorem StaticFirst.findsPlain {matchit : Matchit} (h : StaticFirst matchit) : FindsPlain matchit := by
  intro router path idx params haccepted hplain hfind
  obtain ⟨pattern, hmem, hmatch, -⟩ := h.prefers haccepted hfind
  refine ⟨pattern, hmem, ?_⟩
  rw [← matchWildcards_plain (hplain _ hmem)]
  exact hmatch

end Mahalo.Router
