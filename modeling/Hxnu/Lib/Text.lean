import Mathlib.Data.List.Basic
import Mathlib.Data.List.TakeWhile

/-!
# Lines and words of a text

A text is the list of its UTF-8 bytes. This file has the functions of the source language that take a
text apart: the lines of a text, and a text without the white space around it.

## Main definitions

* `Text.ascii`: the bytes of an ASCII text.
* `Text.split`: the parts of a text between separators.
* `Text.stripPrefixOr`, `Text.trimMatches`, `Text.trimEndMatches`, `Text.containsPair`.
* `Text.lines`: the lines, without `\n` or `\r\n` at their ends.
* `Text.trim`: the text without white space at its ends.

## Main results

* `Text.lines_flatMap`: the lines of a text that is written line by line.
* `Text.not_prefix_trim`, `Text.prefix_of_trim_eq_nil`: white space at the start of a text.
-/

namespace Hxnu.Text

open List

/-- The bytes of an ASCII text. -/
def ascii (s : String) : List UInt8 := s.toList.map fun c => UInt8.ofNat c.toNat

/-- `str::split` at a separator of one byte. -/
def split (separator : UInt8) : List UInt8 → List (List UInt8)
  | [] => [[]]
  | b :: bs =>
    if b = separator then [] :: split separator bs
    else
      match split separator bs with
      | [] => [[b]]
      | part :: rest => (b :: part) :: rest

/-- `str::trim_end_matches` of one byte. -/
def trimEndMatches (c : UInt8) (text : List UInt8) : List UInt8 :=
  (text.reverse.dropWhile (· == c)).reverse

/-- `str::trim_matches` of one byte. -/
def trimMatches (c : UInt8) (text : List UInt8) : List UInt8 :=
  trimEndMatches c (text.dropWhile (· == c))

/-- `strip_prefix`, with the text itself if it does not start so. -/
def stripPrefixOr (start text : List UInt8) : List UInt8 :=
  if start.isPrefixOf text then text.drop start.length else text

/-- Does a text contain two given bytes in a row? -/
def containsPair (a b : UInt8) (text : List UInt8) : Bool :=
  (text.zip text.tail).contains (a, b)

/-- The pieces of a text that end with a newline each, except perhaps the last. -/
def pieces : List UInt8 → List (List UInt8)
  | [] => []
  | b :: bs =>
    if b = 10 then [b] :: pieces bs
    else
      match pieces bs with
      | [] => [[b]]
      | piece :: rest => (b :: piece) :: rest

/-- A piece without `\n` or `\r\n` at its end. -/
def chomp (piece : List UInt8) : List UInt8 :=
  if piece.getLast? = some 10 then
    if piece.dropLast.getLast? = some 13 then piece.dropLast.dropLast else piece.dropLast
  else piece

/-- `str::lines`. -/
def lines (text : List UInt8) : List (List UInt8) := (pieces text).map chomp

/-- The characters with the Unicode property `White_Space`. -/
def whiteSpace : List (List UInt8) :=
  [[0x09], [0x0a], [0x0b], [0x0c], [0x0d], [0x20], [0xc2, 0x85], [0xc2, 0xa0], [0xe1, 0x9a, 0x80],
    [0xe2, 0x80, 0x80], [0xe2, 0x80, 0x81], [0xe2, 0x80, 0x82], [0xe2, 0x80, 0x83],
    [0xe2, 0x80, 0x84], [0xe2, 0x80, 0x85], [0xe2, 0x80, 0x86], [0xe2, 0x80, 0x87],
    [0xe2, 0x80, 0x88], [0xe2, 0x80, 0x89], [0xe2, 0x80, 0x8a], [0xe2, 0x80, 0xa8],
    [0xe2, 0x80, 0xa9], [0xe2, 0x80, 0xaf], [0xe2, 0x81, 0x9f], [0xe3, 0x80, 0x80]]

/-- Take characters of a list off the front, at most `n` of them. -/
def stripFront (chars : List (List UInt8)) : ℕ → List UInt8 → List UInt8
  | 0, text => text
  | n + 1, text =>
    match chars.find? fun c => c.isPrefixOf text with
    | none => text
    | some c => stripFront chars n (text.drop c.length)

/-- `str::trim`. No character has the bytes of another at its end, so the end can be read
backwards. -/
def trim (text : List UInt8) : List UInt8 :=
  let front := stripFront whiteSpace text.length text
  (stripFront (whiteSpace.map List.reverse) front.length front.reverse).reverse

/-! ### Parts of a text -/

section Split

variable {c : UInt8} {text part : List UInt8}

theorem split_ne_nil (c : UInt8) (text : List UInt8) : split c text ≠ [] := by
  cases text with
  | nil => exact nofun
  | cons b bs =>
    rw [split]
    split_ifs
    · exact nofun
    · split <;> exact nofun

theorem split_cons_self (c : UInt8) (text : List UInt8) : split c (c :: text) = [] :: split c text := by
  rw [split, if_pos rfl]

/-- A part that ends at a separator. -/
theorem split_append_cons (hpart : c ∉ part) (text : List UInt8) :
    split c (part ++ c :: text) = part :: split c text := by
  induction part with
  | nil => exact split_cons_self c text
  | cons b bs ih =>
    obtain ⟨hb, hbs⟩ := not_or.mp (mem_cons.not.mp hpart)
    rw [cons_append, split, if_neg fun heq => hb heq.symm, ih hbs]

theorem split_of_notMem (hpart : c ∉ part) : split c part = [part] := by
  induction part with
  | nil => rfl
  | cons b bs ih =>
    obtain ⟨hb, hbs⟩ := not_or.mp (mem_cons.not.mp hpart)
    rw [split, if_neg fun heq => hb heq.symm, ih hbs]

/-- An empty first part that is not the whole text ends at a separator. -/
theorem head?_of_split {parts : List (List UInt8)} (h : split c text = [] :: part :: parts) :
    text.head? = some c := by
  cases text with
  | nil => cases h
  | cons b bs =>
    rw [split] at h
    split_ifs at h with hb
    · rw [hb, head?_cons]
    · split at h <;> cases h

/-- The parts are found again in the text that is made of them. -/
theorem split_flatMap_cons (h : ∀ part ∈ parts, c ∉ part) :
    split c (parts.flatMap (c :: ·)) = [] :: parts := by
  induction parts with
  | nil => rfl
  | cons part parts ih =>
    have hrest := ih fun p hp => h p (mem_cons_of_mem part hp)
    rw [flatMap_cons, cons_append, split_cons_self]
    congr 1
    cases parts with
    | nil => rw [flatMap_nil, append_nil, split_of_notMem (h part mem_cons_self)]
    | cons next parts =>
      rw [flatMap_cons, cons_append, split_cons_self] at hrest
      rw [flatMap_cons, cons_append, split_append_cons (h part mem_cons_self),
        (List.cons.inj hrest).2]

/-- The parts of a text do not contain the separator. -/
theorem notMem_of_mem_split (h : part ∈ split c text) : c ∉ part := by
  induction text generalizing part with
  | nil =>
    rw [mem_singleton.mp h]
    exact not_mem_nil
  | cons b bs ih =>
    rw [split] at h
    split_ifs at h with hb
    · obtain rfl | h := mem_cons.mp h
      · exact not_mem_nil
      · exact ih h
    · cases hsplit : split c bs with
      | nil => exact absurd hsplit (split_ne_nil c bs)
      | cons first rest =>
        rw [hsplit] at h ih
        obtain rfl | h := mem_cons.mp h
        · refine mem_cons.not.mpr (not_or.mpr ⟨fun heq => hb heq.symm, ?_⟩)
          exact ih mem_cons_self
        · exact ih (mem_cons_of_mem first h)

/-- The first part is where the text starts, and the other parts are pieces of it. -/
theorem split_infix (c : UInt8) (text : List UInt8) :
    ∃ first rest, split c text = first :: rest ∧ first <+: text ∧ ∀ part ∈ rest, part <:+: text := by
  induction text with
  | nil => exact ⟨[], [], rfl, prefix_refl [], nofun⟩
  | cons b bs ih =>
    obtain ⟨first, rest, hsplit, hfirst, hrest⟩ := ih
    rw [split, hsplit]
    split_ifs
    · refine ⟨[], first :: rest, rfl, nil_prefix, fun part hpart => ?_⟩
      obtain rfl | hpart := mem_cons.mp hpart
      · exact infix_cons hfirst.isInfix
      · exact infix_cons (hrest part hpart)
    · exact ⟨b :: first, rest, rfl, cons_prefix_cons.mpr ⟨rfl, hfirst⟩,
        fun part hpart => infix_cons (hrest part hpart)⟩

theorem infix_of_mem_split (h : part ∈ split c text) : part <:+: text := by
  obtain ⟨first, rest, hsplit, hfirst, hrest⟩ := split_infix c text
  rw [hsplit] at h
  obtain rfl | h := mem_cons.mp h
  · exact hfirst.isInfix
  · exact hrest part h

/-- Two bytes in a row are a piece of the text. -/
theorem containsPair_of_infix (h : [a, b] <:+: text) : containsPair a b text = true := by
  obtain ⟨front, back, rfl⟩ := h
  rw [containsPair, contains_iff_mem]
  induction front with
  | nil => exact mem_cons_self
  | cons x front ih =>
    cases front with
    | nil => exact mem_cons_of_mem _ ih
    | cons y front => exact mem_cons_of_mem _ ih

end Split

section Ends

variable {a b c : UInt8} {text front back : List UInt8}

theorem trimEndMatches_of_getLast? (h : text.getLast? ≠ some c) : trimEndMatches c text = text := by
  rw [← head?_reverse] at h
  rw [trimEndMatches]
  cases hreverse : text.reverse with
  | nil => rw [← reverse_reverse text, hreverse]; rfl
  | cons d rest =>
    rw [hreverse, head?_cons, ne_eq, Option.some.injEq] at h
    rw [dropWhile_cons_of_neg (by simpa using h), ← hreverse, reverse_reverse]

/-- A text without the separators at its end, and those. -/
theorem trimEndMatches_append (c : UInt8) (text : List UInt8) :
    ∃ n, text = trimEndMatches c text ++ List.replicate n c := by
  have hall : ∀ x ∈ text.reverse.takeWhile (· == c), x = c := by
    intro x hx
    have himp := mem_takeWhile_imp hx
    exact beq_iff_eq.mp himp
  refine ⟨(text.reverse.takeWhile (· == c)).length, ?_⟩
  rw [← reverse_replicate, ← eq_replicate_of_mem hall, trimEndMatches,
    ← reverse_append, takeWhile_append_dropWhile, reverse_reverse]

theorem containsPair_cons (a b x : UInt8) (text : List UInt8) : containsPair a b (x :: text) =
    ((x == a && text.head? == some b) || containsPair a b text) := by
  cases text with
  | nil => simp [containsPair]
  | cons y ys =>
    simp only [containsPair, tail_cons, zip_cons_cons, contains_cons,
      head?_cons]
    congr 1
    rw [Bool.eq_iff_iff, beq_iff_eq, Bool.and_eq_true, beq_iff_eq, beq_iff_eq, Prod.mk.injEq,
      Option.some.injEq]
    exact and_congr eq_comm eq_comm

/-- A pair does not go over another byte. -/
theorem containsPair_append_cons (ha : c ≠ a) (hb : c ≠ b) :
    containsPair a b (front ++ c :: back) =
      (containsPair a b front || containsPair a b back) := by
  induction front with
  | nil => rw [nil_append, containsPair_cons]; simp [ha, containsPair]
  | cons x front ih =>
    rw [cons_append, containsPair_cons, containsPair_cons, ih, Bool.or_assoc]
    congr 2
    cases front with
    | nil => simp [hb]
    | cons y front => rfl

theorem containsPair_of_notMem (h : a ∉ text) : containsPair a b text = false := by
  rw [containsPair, contains_eq_mem, decide_eq_false_iff_not]
  exact fun hmem => h (of_mem_zip hmem).1

end Ends

/-! ### Lines -/

section Lines

variable {line text : List UInt8}

theorem pieces_append_newline (h : 10 ∉ line) (text : List UInt8) :
    pieces (line ++ 10 :: text) = (line ++ [10]) :: pieces text := by
  induction line with
  | nil => rw [nil_append, pieces, if_pos rfl, nil_append]
  | cons b line ih =>
    obtain ⟨hb, hline⟩ := not_or.mp (mem_cons.not.mp h)
    rw [cons_append, pieces, if_neg fun heq => hb heq.symm, ih hline, cons_append]

/-- The lines of a text that is written line by line. -/
theorem lines_flatMap {names : List (List UInt8)} (h : ∀ name ∈ names, 10 ∉ name) :
    lines (names.flatMap (· ++ [10])) = names.map fun name => chomp (name ++ [10]) := by
  have hpieces : pieces (names.flatMap (· ++ [10])) = names.map (· ++ [10]) := by
    induction names with
    | nil => rfl
    | cons name names ih =>
      rw [flatMap_cons, append_assoc, singleton_append,
        pieces_append_newline (h name mem_cons_self),
        ih fun n hn => h n (mem_cons_of_mem name hn), map_cons]
  rw [lines, hpieces, map_map]
  rfl

/-- A line without a carriage return at its end is its piece without the newline. -/
theorem chomp_append_newline (h : line.getLast? ≠ some 13) : chomp (line ++ [10]) = line := by
  rw [chomp, getLast?_concat, if_pos rfl, dropLast_concat, if_neg h]

theorem chomp_append_newline_cases (line : List UInt8) :
    chomp (line ++ [10]) = line ∨ line = chomp (line ++ [10]) ++ [13] := by
  by_cases h : line.getLast? = some 13
  · refine .inr ?_
    rw [chomp, getLast?_concat, if_pos rfl, dropLast_concat, if_pos h,
      dropLast_append_getLast? 13 h]
  · exact .inl (chomp_append_newline h)

end Lines

/-! ### White space -/

section Strip

variable {chars : List (List UInt8)} {n : ℕ} {text : List UInt8}

theorem stripFront_suffix (chars : List (List UInt8)) (n : ℕ) (text : List UInt8) :
    stripFront chars n text <:+ text := by
  induction n generalizing text with
  | zero => exact suffix_refl text
  | succ n ih =>
    rw [stripFront]
    split
    · exact suffix_refl text
    · exact (ih _).trans (drop_suffix _ _)

/-- Nothing is left to strip. -/
theorem not_prefix_stripFront (hchars : ∀ c ∈ chars, c ≠ []) (hn : text.length ≤ n) :
    ∀ c ∈ chars, ¬ c <+: stripFront chars n text := by
  induction n generalizing text with
  | zero =>
    intro c hc hpre
    rw [stripFront, length_eq_zero_iff.mp (Nat.le_zero.mp hn)] at hpre
    exact hchars c hc (prefix_nil.mp hpre)
  | succ n ih =>
    rw [stripFront]
    split
    · rename_i hnone
      intro c hc hpre
      exact find?_eq_none.mp hnone c hc (List.isPrefixOf_iff_prefix.mpr hpre)
    · rename_i c hsome
      have hpos := length_pos_iff.mpr (hchars c (mem_of_find?_eq_some hsome))
      exact ih (by rw [length_drop]; omega)

/-- A text that is stripped to nothing starts with one of the characters. -/
theorem prefix_of_stripFront_eq_nil (h : stripFront chars n text = []) :
    text = [] ∨ ∃ c ∈ chars, c <+: text := by
  cases n with
  | zero => exact .inl h
  | succ n =>
    rw [stripFront] at h
    split at h
    · exact .inl h
    · rename_i c hsome
      have hfound : c.isPrefixOf text = true :=
        find?_some (p := fun c : List UInt8 => c.isPrefixOf text) hsome
      exact .inr ⟨c, mem_of_find?_eq_some hsome, isPrefixOf_iff_prefix.mp hfound⟩

/-- So does a text that is stripped to nothing from its end. -/
theorem prefix_of_stripEnd_eq_nil
    (h : stripFront (chars.map List.reverse) n text.reverse = []) :
    text = [] ∨ ∃ c ∈ chars, c <+: text := by
  induction n generalizing text with
  | zero => exact .inl (reverse_eq_nil_iff.mp h)
  | succ n ih =>
    rw [stripFront] at h
    split at h
    · exact .inl (reverse_eq_nil_iff.mp h)
    · rename_i d hsome
      obtain ⟨c, hc, rfl⟩ := mem_map.mp (mem_of_find?_eq_some hsome)
      have hfound : c.reverse.isPrefixOf text.reverse = true :=
        find?_some (p := fun c : List UInt8 => c.isPrefixOf text.reverse) hsome
      obtain ⟨rest, hrest⟩ := isPrefixOf_iff_prefix.mp hfound
      have htext : text = rest.reverse ++ c := by
        rw [← reverse_reverse text, ← hrest, reverse_append, reverse_reverse]
      rw [← hrest, drop_left, ← reverse_reverse rest] at h
      obtain hnil | ⟨c', hc', hpre⟩ := ih h
      · exact .inr ⟨c, hc, by rw [htext, hnil]; exact prefix_refl c⟩
      · exact .inr ⟨c', hc', by rw [htext]; exact hpre.trans (prefix_append _ _)⟩

end Strip

section Trim

variable {text : List UInt8}

theorem trim_prefix_stripFront (text : List UInt8) :
    trim text <+: stripFront whiteSpace text.length text := by
  have hsuffix := stripFront_suffix (whiteSpace.map List.reverse)
    (stripFront whiteSpace text.length text).length
    (stripFront whiteSpace text.length text).reverse
  rw [trim, ← reverse_suffix, reverse_reverse]
  exact hsuffix

/-- A trimmed text is a part of the text. -/
theorem trim_isInfix (text : List UInt8) : trim text <:+: text :=
  (trim_prefix_stripFront text).isInfix.trans (stripFront_suffix _ _ _).isInfix

theorem whiteSpace_ne_nil : ∀ c ∈ whiteSpace, c ≠ [] := by
  decide

/-- A trimmed text does not start with white space. -/
theorem not_prefix_trim : ∀ c ∈ whiteSpace, ¬ c <+: trim text := fun c hc hpre =>
  not_prefix_stripFront whiteSpace_ne_nil le_rfl c hc (hpre.trans (trim_prefix_stripFront text))

/-- A text of white space starts with white space. -/
theorem prefix_of_trim_eq_nil (h : trim text = []) :
    text = [] ∨ ∃ c ∈ whiteSpace, c <+: text := by
  obtain hfront | ⟨c, hc, hpre⟩ := prefix_of_stripEnd_eq_nil (reverse_eq_nil_iff.mp h)
  · exact prefix_of_stripFront_eq_nil hfront
  · exact absurd hpre (not_prefix_stripFront whiteSpace_ne_nil le_rfl c hc)

/-- A trimmed text does not end with a carriage return. -/
theorem getLast?_ne_of_trim_eq (h : trim text = text) : text.getLast? ≠ some 13 := by
  intro hlast
  have hchars : ∀ c ∈ whiteSpace.map List.reverse, c ≠ [] := by decide
  have hlen : (stripFront whiteSpace text.length text).reverse.length ≤
      (stripFront whiteSpace text.length text).length := length_reverse.le
  have hstripped := not_prefix_stripFront hchars hlen [13] (by decide)
  have hreverse : (trim text).reverse = _ := reverse_reverse _
  rw [h] at hreverse
  rw [← hreverse] at hstripped
  rw [← head?_reverse] at hlast
  cases hrev : text.reverse with
  | nil => rw [hrev] at hlast; cases hlast
  | cons b rest =>
    rw [hrev, head?_cons, Option.some.injEq] at hlast
    rw [hrev, hlast] at hstripped
    exact hstripped ⟨rest, rfl⟩

end Trim

end Hxnu.Text
