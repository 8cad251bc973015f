import Mathlib.Data.List.Basic
import RecordFilter.Wildcard

namespace RecordFilter

namespace Regex

theorem read?_append_of_meta {c : Char} (hc : isMeta c = true) (rest : Text) :
    read? ('\\' :: c :: rest) = (read? rest).map (.char c :: ·) := by
  rw [read?, if_pos hc]

theorem read?_cons_of_not_meta {c : Char} (hc : isMeta c = false) (rest : Text) :
    read? (c :: rest) = (read? rest).map (.char c :: ·) := by
  have hne : ∀ d : Char, isMeta d = true → c ≠ d := by
    rintro d hd rfl
    rw [hc] at hd
    cases hd
  rw [read?, if_neg (by simp [hc])]
  · exact fun _ _ h _ => hne _ (by decide) h
  · exact fun _ h _ => hne _ (by decide) h
  · exact hne _ (by decide)
  · exact hne _ (by decide)

theorem read?_run (rest : Text) :
    read? (".*".toList ++ rest) = (read? rest).map (.run :: ·) := by
  rw [String.toList]
  rfl

-- Whatever an escaped text holds, it is read as its characters.
theorem read?_escape_append (text rest : Text) :
    read? (escape text ++ rest) = (read? rest).map (text.map .char ++ ·) := by
  induction text with
  | nil => simp [escape]
  | cons c text ih =>
    have hcons : escape (c :: text) = (if isMeta c then ['\\', c] else [c]) ++ escape text :=
      List.flatMap_cons
    rw [hcons, List.append_assoc]
    cases hc : isMeta c with
    | true =>
      rw [if_pos rfl, List.cons_append, List.cons_append, List.nil_append, read?_append_of_meta hc, ih,
        Option.map_map]
      rfl
    | false =>
      rw [if_neg (by simp), List.cons_append, List.nil_append, read?_cons_of_not_meta hc, ih,
        Option.map_map]
      rfl

theorem build?_eq (builds : Regex → Bool) {text : Text} {items : List Item}
    (h : read? text = some items) (ignoreCase dotAll : Bool) :
    build? builds text ignoreCase dotAll =
      if builds ⟨text, items, h, ignoreCase, dotAll⟩ then
        some ⟨text, items, h, ignoreCase, dotAll⟩
      else none := by
  rw [build?]
  split
  · next hn =>
    rw [h] at hn
    cases hn
  · next found hfound =>
    obtain rfl : items = found := Option.some.inj (h.symm.trans hfound)
    rfl

end Regex

namespace Wildcard

-- What a character of a literal is in the expression for it.
def item (c : Char) : Regex.Item := if c = '*' then .run else .char c

theorem read?_pieces_append (literal rest : Text) :
    Regex.read? (List.intercalate ".*".toList ((Text.split '*' literal).map Regex.escape) ++ rest) =
      (Regex.read? rest).map (literal.map item ++ ·) := by
  induction literal with
  | nil => simp [Text.split, Regex.escape]
  | cons c literal ih =>
    by_cases hc : c = '*'
    · have hne : (Text.split '*' literal).map Regex.escape ≠ [] := by
        simpa using Text.split_ne_nil '*' literal
      have hitems : (c :: literal).map item = .run :: literal.map item := by
        rw [List.map_cons, item, if_pos hc]
      rw [Text.split, if_pos hc, List.map_cons, List.intercalate_cons_of_ne_nil hne, Regex.escape,
        List.flatMap_nil, List.nil_append, List.append_assoc, Regex.read?_run, ih, Option.map_map,
        hitems]
      rfl
    · -- the first piece takes the character before all the others it has
      obtain ⟨piece, pieces, hs⟩ := List.exists_cons_of_ne_nil (Text.split_ne_nil '*' literal)
      have hsplit : Text.split '*' (c :: literal) = (c :: piece) :: pieces := by
        rw [Text.split, if_neg hc, hs]
      have hlead : List.intercalate ".*".toList (((c :: piece) :: pieces).map Regex.escape) =
          Regex.escape [c] ++
            List.intercalate ".*".toList ((piece :: pieces).map Regex.escape) := by
        cases pieces with
        | nil => simp [Regex.escape]
        | cons next pieces => simp [Regex.escape, List.intercalate_cons_cons]
      have hitems : (c :: literal).map item = .char c :: literal.map item := by
        rw [List.map_cons, item, if_neg hc]
      rw [hsplit, hlead, List.append_assoc, Regex.read?_escape_append, ← hs, ih, Option.map_map,
        hitems]
      rfl

-- The expression for a literal is read between both anchors, with a run for each star and every other
-- character as itself.
theorem read?_source (literal : Text) :
    Regex.read? (source literal) = some (.start :: literal.map item ++ [.finish]) := by
  rw [source, List.cons_append, Regex.read?, read?_pieces_append]
  rfl

-- What is built from a literal, if the engine takes it.
def expression (literal : Text) (caseSensitive : Bool) : Regex where
  text := source literal
  items := .start :: literal.map item ++ [.finish]
  items_eq := read?_source literal
  ignoreCase := !caseSensitive
  dotAll := true

def compiled (literal : Text) (caseSensitive : Bool) : Wildcard where
  regex := expression literal caseSensitive
  caseSensitive := caseSensitive
  ignoreCase_eq := rfl
  dotAll_eq := rfl

theorem ofLiteral_eq (builds : Regex → Bool) (literal : Text) (caseSensitive : Bool) :
    ofLiteral builds literal caseSensitive =
      if builds (expression literal caseSensitive) then .ok (compiled literal caseSensitive)
      else .error (.unreadable literal "wildcard pattern".toList) := by
  have hbuild : Regex.build? builds (source literal) (!caseSensitive) true =
      if builds (expression literal caseSensitive) then some (expression literal caseSensitive)
      else none := Regex.build?_eq builds (read?_source literal) _ _
  rw [ofLiteral]
  split
  · next regex hregex =>
    rw [hbuild, Option.ite_none_right_eq_some] at hregex
    obtain ⟨hbuilds, hregex⟩ := hregex
    cases hregex
    rw [if_pos hbuilds]
    rfl
  · next hnone =>
    rw [hbuild, ite_eq_right_iff] at hnone
    rw [if_neg fun hbuilds => nomatch hnone hbuilds]

end Wildcard

end RecordFilter
