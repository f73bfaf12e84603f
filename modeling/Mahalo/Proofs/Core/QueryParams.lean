/-
Decoding a query undoes encoding it.

A query is split at `&` and then at the first `=` before anything is decoded, and no
encoding has either of the two in it, so each pair comes back whole.  Its key and its
value are the UTF-8 of the texts they were, and of the pairs with one key the last stays
in the map.
-/
import Mahalo.Lib.Percent
import Mahalo.Proofs.Router.Paths
import Mathlib.Data.List.Induction

namespace Mahalo.Conn

open RustStd Percent

/-- A key and its value, percent-encoded. -/
def encodePair (pair : String × String) : List Char :=
  encode (asBytes pair.1) ++ '=' :: encode (asBytes pair.2)

/-- The pairs as a query. -/
def encodeQuery (pairs : List (String × String)) : String :=
  String.ofList (['&'].intercalate (pairs.map encodePair))

theorem amp_not_mem_encodePair (pair : String × String) : '&' ∉ encodePair pair := by
  have hno := reserved_not_mem (c := '&') (by decide)
  simp [encodePair, hno]

theorem split_encodeQuery {pairs : List (String × String)} (hne : pairs ≠ []) :
    split (encodeQuery pairs).toList '&' = pairs.map encodePair := by
  rw [encodeQuery, String.toList_ofList, split_eq_splitOn]
  refine List.splitOn_intercalate '&' ?_ (by simpa using hne)
  intro piece hpiece
  obtain ⟨pair, _, rfl⟩ := List.mem_map.mp hpiece
  exact amp_not_mem_encodePair pair

variable {percentDecode : String → List UInt8}

/-- A pair is decoded to what it was. -/
theorem decodePair_encodePair (h : Reads fun text => percentDecode (String.ofList text))
    (pair : String × String) : decodePair percentDecode (encodePair pair) = pair := by
  have hsplit : splitAtChar (encodePair pair) '=' = some (encode (asBytes pair.1), encode (asBytes pair.2)) :=
    splitAtChar_eq_some.mpr ⟨rfl, reserved_not_mem (by decide) _⟩
  unfold decodePair
  rw [hsplit, Option.getD_some]
  simp only [h.encode, fromUtf8Lossy_encode]

/-- Of the pairs with one key the last stays. -/
theorem lookup_collect (pairs : List (String × String)) (key : String) :
    (pairs.foldl (fun map pair => map.insert pair.1 pair.2) (∅ : AList fun _ : String => String)).lookup key
      = pairs.reverse.lookup key := by
  induction pairs using List.reverseRecOn with
  | nil => rfl
  | append_singleton pairs pair ih =>
    obtain ⟨k, value⟩ := pair
    rw [List.foldl_append, List.reverse_append]
    by_cases hkey : key = k
    · subst hkey
      simp
    · have hbeq : (key == k) = false := beq_false_of_ne hkey
      simp [AList.lookup_insert_ne hkey, ih, List.lookup_cons, hbeq]

/--
**Query string decoding undoes encoding.**  After a query made of these pairs is parsed,
the parameters are the map that gives each key its last value, and nothing else of the
`Conn` has changed.
-/
theorem parseQueryParams_encodeQuery (h : Reads fun text => percentDecode (String.ofList text)) {A : Type}
    (conn : Conn A) {pairs : List (String × String)} (hne : pairs ≠ []) :
    ∃ map : AList fun _ : String => String, (∀ key, map.lookup key = pairs.reverse.lookup key) ∧
      parseQueryParams percentDecode { conn with uri.query := some (encodeQuery pairs) }
        = { conn with uri.query := some (encodeQuery pairs), queryParams := some map } := by
  refine ⟨decodeQuery percentDecode (encodeQuery pairs), ?_, rfl⟩
  intro key
  have hpairs : (split (encodeQuery pairs).toList '&').map (decodePair percentDecode) = pairs := by
    rw [split_encodeQuery hne, List.map_map]
    exact (List.map_congr_left fun pair _ => decodePair_encodePair h pair).trans (List.map_id pairs)
  rw [decodeQuery, hpairs, lookup_collect]

/-- Texts with separators, escapes and characters of several bytes in them, and a key that comes twice. -/
def trickyPairs : List (String × String) := [("a=b", "1&2"), ("", "%41+"), ("a=b", "é")]

theorem parseQueryParams_encodeQuery_tricky : ∃ map : AList fun _ : String => String,
    (∀ key, map.lookup key = trickyPairs.reverse.lookup key) ∧
      parseQueryParams (fun text => Percent.decode text.toList)
          ({ Conn.new (A := Unit) .get { path := "/", query := none } with
            uri.query := some (encodeQuery trickyPairs) })
        = { Conn.new (A := Unit) .get { path := "/", query := none } with
            uri.query := some (encodeQuery trickyPairs), queryParams := some map } := by
  have hreads : Reads fun text => (fun text : String => Percent.decode text.toList) (String.ofList text) := by
    simpa using reads_decode
  exact parseQueryParams_encodeQuery hreads _ (by decide)

end Mahalo.Conn
