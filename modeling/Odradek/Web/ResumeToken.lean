import Mathlib.Algebra.Group.Int.Defs
import Odradek.Library.Text
import Odradek.Web.Hub

/-!
The resume cursor of a topic stream as text (`cursor.rs`), and the start the
query parameters ask for (`params.rs`). Any map of `i32` partitions to `i64`
offsets that is not empty is what its text parses to.
-/

namespace Odradek.Web

open Library

abbrev Seen := SortedMap Int Int

/-- `write!(out, "{partition}:{offset}")`. -/
def pairText (pair : Int × Int) : Text := Text.print pair.1 ++ ':' :: Text.print pair.2

def encodeCursor (cursor : Seen) : Text :=
  cursor.entries.foldl
    (fun out pair => (if out.isEmpty then out else out ++ [',']) ++ pairText pair) []

inductive CursorError
  | notPair (pair : Text)
  | badPartition (pair : Text)
  | badOffset (pair : Text)
  deriving DecidableEq

def readI32 (text : Text) : Option Int := Text.readWithin (-2 ^ 31) (2 ^ 31 - 1) text

def readI64 (text : Text) : Option Int := Text.readWithin (-2 ^ 63) (2 ^ 63 - 1) text

def parsePair (pair : Text) : Except CursorError (Int × Int) :=
  match Text.splitOnce ':' pair with
  | none => .error (.notPair pair)
  | some (partition, offset) =>
    match readI32 (Text.trim partition) with
    | none => .error (.badPartition pair)
    | some partition =>
      match readI64 (Text.trim offset) with
      | none => .error (.badOffset pair)
      | some offset => .ok (partition, offset)

def parsePairs : List Text → Seen → Except CursorError Seen
  | [], cursor => .ok cursor
  | pair :: pairs, cursor =>
    match parsePair pair with
    | .error e => .error e
    | .ok (partition, offset) => parsePairs pairs (cursor.insert partition offset)

def parseCursor (raw : Text) : Except CursorError Seen := parsePairs (raw.splitOn ',') .empty

/-- `StreamParams::topic_position`; `start` is the `from` parameter. -/
def topicPosition (start resume : Option Text) : Except CursorError TopicPosition :=
  match resume with
  | some raw => (parseCursor raw).map .after
  | none =>
    match start with
    | none => .ok .latest
    | some raw =>
      if raw = "latest".toList then .ok .latest
      else if raw = "earliest".toList then .ok .earliest
      else (parseCursor raw).map .after

def PairInRange (pair : Int × Int) : Prop :=
  (-2 ^ 31 ≤ pair.1 ∧ pair.1 ≤ 2 ^ 31 - 1) ∧ -2 ^ 63 ≤ pair.2 ∧ pair.2 ≤ 2 ^ 63 - 1

instance decidablePairInRange (pair : Int × Int) : Decidable (PairInRange pair) :=
  inferInstanceAs (Decidable (_ ∧ _))

def Representable (cursor : Seen) : Prop := ∀ pair ∈ cursor.entries, PairInRange pair

section RoundTrip

theorem pairText_ne_nil (pair : Int × Int) : pairText pair ≠ [] :=
  List.append_ne_nil_of_left_ne_nil (Text.print_ne_nil pair.1) _

theorem mem_pairText {pair : Int × Int} {c : Char} (h : c ∈ pairText pair) :
    c = ':' ∨ c = '-' ∨ c.isDigit = true := by
  rcases List.mem_append.mp h with h | h
  · exact .inr (Text.mem_print h)
  · rcases List.mem_cons.mp h with rfl | h
    · exact .inl rfl
    · exact .inr (Text.mem_print h)

theorem comma_not_mem_pairText (pair : Int × Int) : ',' ∉ pairText pair := by
  intro h
  rcases mem_pairText h with h | h | h
  · cases h
  · cases h
  · cases h

theorem colon_not_mem_print (n : Int) : ':' ∉ Text.print n := by
  intro h
  rcases Text.mem_print h with h | h
  · cases h
  · cases h

theorem parsePair_pairText {pair : Int × Int} (h : PairInRange pair) :
    parsePair (pairText pair) = .ok pair := by
  obtain ⟨⟨hlow, hhigh⟩, hlow', hhigh'⟩ := h
  unfold parsePair pairText
  simp only [Text.splitOnce_append _ (colon_not_mem_print pair.1), Text.trim_print,
    readI32, readI64,
    Text.readWithin_print hlow hhigh, Text.readWithin_print hlow' hhigh']

theorem encodePairs_append {out : Text} (hout : out ≠ []) (pairs : List (Int × Int)) :
    pairs.foldl (fun out pair => (if out.isEmpty then out else out ++ [',']) ++ pairText pair) out =
      out ++ pairs.flatMap fun pair => ',' :: pairText pair := by
  induction pairs generalizing out with
  | nil => simp
  | cons pair pairs ih =>
      have hempty : out.isEmpty = false := by simpa using hout
      rw [List.foldl_cons, hempty, if_neg (by decide), ih (by simp), List.flatMap_cons]
      simp only [List.append_assoc, List.cons_append, List.nil_append]

theorem intercalate_cons (text : Text) (texts : List Text) :
    [','].intercalate (text :: texts) = text ++ texts.flatMap fun text => ',' :: text := by
  induction texts generalizing text with
  | nil => simp
  | cons next texts ih =>
      rw [List.intercalate_cons_cons, ih next, List.flatMap_cons]
      simp only [List.append_assoc, List.cons_append, List.nil_append]

/-- Commas stand between the pairs and nowhere else. -/
theorem encodeCursor_eq_intercalate (cursor : Seen) :
    encodeCursor cursor = [','].intercalate (cursor.entries.map pairText) := by
  unfold encodeCursor
  cases cursor.entries with
  | nil => rfl
  | cons pair pairs =>
      rw [List.foldl_cons, encodePairs_append (by simp [pairText_ne_nil]), List.map_cons,
        intercalate_cons, List.flatMap_map]
      rfl

theorem parsePairs_texts {pairs : List (Int × Int)} (h : ∀ pair ∈ pairs, PairInRange pair)
    (cursor : Seen) : parsePairs (pairs.map pairText) cursor = .ok (cursor.ofInserts pairs) := by
  induction pairs generalizing cursor with
  | nil => rfl
  | cons pair pairs ih =>
      rw [List.map_cons, parsePairs, parsePair_pairText (h pair List.mem_cons_self)]
      exact ih (fun pair hmem => h pair (List.mem_cons_of_mem _ hmem)) _

theorem parseCursor_encodeCursor {cursor : Seen} (h : Representable cursor)
    (hne : cursor.entries ≠ []) : parseCursor (encodeCursor cursor) = .ok cursor := by
  have hsplit : (encodeCursor cursor).splitOn ',' = cursor.entries.map pairText := by
    rw [encodeCursor_eq_intercalate]
    refine List.splitOn_intercalate _ ?_ (by simpa using hne)
    intro text hmem
    obtain ⟨pair, _, rfl⟩ := List.mem_map.mp hmem
    exact comma_not_mem_pairText pair
  rw [parseCursor, hsplit, parsePairs_texts h, SortedMap.ofInserts_entries]

end RoundTrip

section Bounds

theorem parsePair_inRange {text : Text} {pair : Int × Int} (h : parsePair text = .ok pair) :
    PairInRange pair := by
  unfold parsePair at h
  split at h
  · cases h
  · split at h
    · cases h
    · split at h
      · cases h
      · cases h
        exact ⟨Text.readWithin_bounds ‹_›, Text.readWithin_bounds ‹_›⟩

theorem Representable.insert {cursor : Seen} (h : Representable cursor) {pair : Int × Int}
    (hpair : PairInRange pair) : Representable (cursor.insert pair.1 pair.2) := by
  intro entry hmem
  rcases SortedMap.mem_insertEntry hmem with rfl | hmem
  · exact hpair
  · exact h entry hmem

theorem parsePairs_representable {texts : List Text} {cursor parsed : Seen}
    (hcursor : Representable cursor) (h : parsePairs texts cursor = .ok parsed) :
    Representable parsed := by
  induction texts generalizing cursor with
  | nil =>
      cases h
      exact hcursor
  | cons text texts ih =>
      rw [parsePairs] at h
      split at h
      · cases h
      · exact ih (hcursor.insert (parsePair_inRange ‹_›)) h

/-- Whatever parses is in range. -/
theorem parseCursor_representable {raw : Text} {cursor : Seen}
    (h : parseCursor raw = .ok cursor) : Representable cursor :=
  parsePairs_representable (fun _ hmem => (by cases hmem)) h

def StartInRange : TopicPosition → Prop
  | .after cursor => Representable cursor
  | .earliest | .latest => True

theorem map_parseCursor_inRange {raw : Text} {position : TopicPosition}
    (h : (parseCursor raw).map TopicPosition.after = .ok position) : StartInRange position := by
  cases hparse : parseCursor raw with
  | error e =>
      rw [hparse] at h
      cases h
  | ok cursor =>
      rw [hparse] at h
      cases h
      exact parseCursor_representable hparse

theorem topicPosition_inRange {start resume : Option Text} {position : TopicPosition}
    (h : topicPosition start resume = .ok position) : StartInRange position := by
  unfold topicPosition at h
  split at h
  · exact map_parseCursor_inRange h
  · split at h
    · cases h
      exact trivial
    · split at h
      · cases h
        exact trivial
      · split at h
        · cases h
          exact trivial
        · exact map_parseCursor_inRange h

end Bounds

end Odradek.Web
