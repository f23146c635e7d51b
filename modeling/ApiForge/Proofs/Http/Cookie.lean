import ApiForge.Http.Cookie
import ApiForge.Proofs.Text.Blank
import Mathlib.Data.List.Basic
import Mathlib.Logic.Relation

/-!
# Cookies are read back

Cookies that are written as names and values with a semicolon and a blank between two of them are read back as they
were. Nothing changes when pieces are added that hold no cookie, or white space where it does not count.

* `parseCookies_join`: a header is read piece by piece, and `parseCookie?_pair` says what a piece with an equals sign
  holds.
* `Vacant`, `Spaced`: the pieces that hold no cookie, and the white space that does not count.
* `Adds`: a header with one more such piece, or with more such white space. It is read as before
  (`Adds.parseCookies_eq`).
* `Writable`: the cookies that are read back when they are written (`parseCookies_writeCookies`). No others are ever
  read (`writable_iff`).
-/

namespace ApiForge.Http

open Text

/-! ## One piece -/

section Piece

variable {name piece piece' : String}

/-- The cookie of a piece with an equals sign: what stands around the first one, without white space. -/
theorem parseCookie?_pair (h : '=' ∉ name.toList) (value : String) :
    parseCookie? (name ++ "=" ++ value) = if trim name = "" then none else some (trim name, trim value) := by
  let name' := String.ofList (name.toList.dropWhile isBlank)
  let value' := String.ofList (value.toList.reverse.dropWhile isBlank).reverse
  have hchars : (trim (name ++ "=" ++ value)).toList = name'.toList ++ '=' :: value'.toList := by
    have hwritten : (name ++ "=" ++ value).toList = name.toList ++ '=' :: value.toList := by simp
    rw [trim, String.toList_ofList, hwritten, strip_append_cons (by decide), String.toList_ofList, String.toList_ofList]
  have hfree : '=' ∉ name'.toList := by
    rw [String.toList_ofList]
    exact fun hmem => h ((List.dropWhile_sublist _).subset hmem)
  have hname : trim name' = trim name := by rw [trim, trim, String.toList_ofList, strip_dropWhile]
  have hvalue : trim value' = trim value := by rw [trim, trim, String.toList_ofList, strip_reverse_dropWhile]
  rw [parseCookie?, splitOnce?_of_append hchars hfree]
  simp [hname, hvalue]

/-- A piece without an equals sign holds no cookie. -/
theorem parseCookie?_bare (h : '=' ∉ piece.toList) : parseCookie? piece = none := by
  rw [parseCookie?, splitOnce?_eq_none fun hmem => h (mem_of_mem_trim hmem)]
  rfl

/-- A piece that holds no cookie: it is white space, has no equals sign, or has no name in front of the equals sign. -/
inductive Vacant : String → Prop
  | blank {piece : String} : AllBlank piece.toList → Vacant piece
  | bare {piece : String} : '=' ∉ piece.toList → Vacant piece
  | nameless {name value : String} : AllBlank name.toList → Vacant (name ++ "=" ++ value)

theorem Vacant.parseCookie?_eq (h : Vacant piece) : parseCookie? piece = none := by
  cases h with
  | blank hblank => exact parseCookie?_bare (hblank.not_mem (by decide))
  | bare hbare => exact parseCookie?_bare hbare
  | nameless hname =>
    rw [parseCookie?_pair (hname.not_mem (by decide)), trim_of_allBlank hname, if_pos rfl]

/-- The second piece is the first one with white space around it, around its name or around its value. -/
inductive Spaced : String → String → Prop
  | piece {left piece right : String} : AllBlank left.toList → AllBlank right.toList →
      Spaced piece (left ++ piece ++ right)
  | name {left name right value : String} : AllBlank left.toList → AllBlank right.toList → '=' ∉ name.toList →
      Spaced (name ++ "=" ++ value) (left ++ name ++ right ++ "=" ++ value)
  | value {name left value right : String} : AllBlank left.toList → AllBlank right.toList → '=' ∉ name.toList →
      Spaced (name ++ "=" ++ value) (name ++ "=" ++ (left ++ value ++ right))

theorem Spaced.parseCookie?_eq (h : Spaced piece piece') : parseCookie? piece' = parseCookie? piece := by
  cases h with
  | piece hleft hright => rw [parseCookie?, parseCookie?, trim_blanks hleft hright]
  | @name left name right value hleft hright hname =>
    have hequals : isBlank '=' = false := by decide
    have hspaced : '=' ∉ (left ++ name ++ right).toList := by
      simp [hleft.not_mem hequals, hname, hright.not_mem hequals]
    rw [parseCookie?_pair hspaced, parseCookie?_pair hname, trim_blanks hleft hright]
  | value hleft hright hname => rw [parseCookie?_pair hname, parseCookie?_pair hname, trim_blanks hleft hright]

theorem Spaced.semicolon_not_mem (h : Spaced piece piece') (hfree : ';' ∉ piece.toList) : ';' ∉ piece'.toList := by
  have hblank {s : String} (hs : AllBlank s.toList) : ';' ∉ s.toList := hs.not_mem (by decide)
  cases h with
  | piece hleft hright => simp [hblank hleft, hblank hright, hfree]
  | name hleft hright => simpa [hblank hleft, hblank hright] using hfree
  | value hleft hright => simpa [hblank hleft, hblank hright] using hfree

end Piece

/-! ## Headers -/

section Header

variable {piece piece' header header' : String}

theorem parseCookies_append (a b : String) : parseCookies (a ++ ";" ++ b) = parseCookies a ++ parseCookies b := by
  have hsplit : split ';' (a ++ ";" ++ b) = split ';' a ++ split ';' b := split_append ';' a b
  rw [parseCookies, hsplit, List.filterMap_append, parseCookies, parseCookies]

/-- **A header is read piece by piece.** -/
theorem parseCookies_join (pieces : List String) :
    parseCookies (String.intercalate ";" pieces) = pieces.flatMap parseCookies := by
  induction pieces with
  | nil => decide
  | cons piece pieces ih =>
    cases pieces with
    | nil => rw [String.intercalate_singleton, List.flatMap_singleton]
    | cons next pieces => rw [String.intercalate_cons_cons, parseCookies_append, ih, ← List.flatMap_cons]

theorem parseCookies_piece (h : ';' ∉ piece.toList) : parseCookies piece = (parseCookie? piece).toList := by
  rw [parseCookies, split, pieces_of_not_mem h, List.map_singleton, String.ofList_toList]
  cases hpiece : parseCookie? piece with
  | none => rw [List.filterMap_cons_none hpiece]; rfl
  | some cookie => rw [List.filterMap_cons_some hpiece]; rfl

theorem Vacant.parseCookies_eq (h : Vacant piece) (hfree : ';' ∉ piece.toList) : parseCookies piece = [] := by
  rw [parseCookies_piece hfree, h.parseCookie?_eq, Option.toList_none]

theorem Spaced.parseCookies_eq (h : Spaced piece piece') (hfree : ';' ∉ piece.toList) :
    parseCookies piece' = parseCookies piece := by
  rw [parseCookies_piece hfree, parseCookies_piece (h.semicolon_not_mem hfree), h.parseCookie?_eq]

/-- The second header is the first one with one more piece that holds no cookie, or with more white space around one of
its pieces, around the name or around the value in it. -/
inductive Adds : String → String → Prop
  | piece {piece : String} (before after : List String) : ';' ∉ piece.toList → Vacant piece →
      Adds (String.intercalate ";" (before ++ after)) (String.intercalate ";" (before ++ piece :: after))
  | blanks {piece piece' : String} (before after : List String) : ';' ∉ piece.toList → Spaced piece piece' →
      Adds (String.intercalate ";" (before ++ piece :: after)) (String.intercalate ";" (before ++ piece' :: after))

/-- **What is added does not change** what a header is read as. -/
theorem Adds.parseCookies_eq (h : Adds header header') : parseCookies header' = parseCookies header := by
  cases h with
  | piece before after hfree hvacant =>
    rw [parseCookies_join, parseCookies_join, List.flatMap_append, List.flatMap_append, List.flatMap_cons,
      hvacant.parseCookies_eq hfree, List.nil_append]
  | blanks before after hfree hspaced =>
    rw [parseCookies_join, parseCookies_join, List.flatMap_append, List.flatMap_append, List.flatMap_cons,
      List.flatMap_cons, hspaced.parseCookies_eq hfree]

/-- However much is added, the header is read as before. -/
theorem parseCookies_eq_of_adds (h : Relation.ReflTransGen Adds header header') :
    parseCookies header' = parseCookies header := by
  induction h with
  | refl => rfl
  | tail _ hadds ih => exact hadds.parseCookies_eq.trans ih

end Header

/-! ## Written cookies -/

/-- A cookie in writing. -/
def writeCookie (cookie : String × String) : String := cookie.1 ++ "=" ++ cookie.2

/-- Cookies in writing, with a semicolon and a blank between two of them. -/
def writeCookies (cookies : List (String × String)) : String := String.intercalate "; " (cookies.map writeCookie)

/-- A cookie whose name and value have no white space at their ends and no semicolon. The name is not empty and has no
equals sign. -/
structure Writable (cookie : String × String) : Prop where
  nonempty : cookie.1 ≠ ""
  trimmedName : trim cookie.1 = cookie.1
  freeName : '=' ∉ cookie.1.toList ∧ ';' ∉ cookie.1.toList
  trimmedValue : trim cookie.2 = cookie.2
  freeValue : ';' ∉ cookie.2.toList

section Written

variable {cookie : String × String} {cookies : List (String × String)}

theorem writable_def : Writable cookie ↔ cookie.1 ≠ "" ∧ trim cookie.1 = cookie.1 ∧
    ('=' ∉ cookie.1.toList ∧ ';' ∉ cookie.1.toList) ∧ trim cookie.2 = cookie.2 ∧ ';' ∉ cookie.2.toList :=
  ⟨fun ⟨h₁, h₂, h₃, h₄, h₅⟩ => ⟨h₁, h₂, h₃, h₄, h₅⟩, fun ⟨h₁, h₂, h₃, h₄, h₅⟩ => ⟨h₁, h₂, h₃, h₄, h₅⟩⟩

instance (cookie : String × String) : Decidable (Writable cookie) := decidable_of_iff _ writable_def.symm

theorem Writable.semicolon_not_mem (h : Writable cookie) : ';' ∉ (writeCookie cookie).toList := by
  simp [writeCookie, h.freeName.2, h.freeValue]

/-- A written cookie is read back. -/
theorem Writable.parseCookies_eq (h : Writable cookie) : parseCookies (writeCookie cookie) = [cookie] := by
  rw [parseCookies_piece h.semicolon_not_mem, writeCookie, parseCookie?_pair h.freeName.1, h.trimmedName,
    h.trimmedValue, if_neg h.nonempty]
  rfl

/-- So it is behind a blank. -/
theorem Writable.parseCookies_blank (h : Writable cookie) : parseCookies (" " ++ writeCookie cookie) = [cookie] := by
  have hspaced : Spaced (writeCookie cookie) (" " ++ writeCookie cookie ++ "") := .piece (by decide) (by decide)
  rw [String.append_empty] at hspaced
  rw [hspaced.parseCookies_eq h.semicolon_not_mem, h.parseCookies_eq]

/-- **Written cookies are read back**, in order and with repeats. -/
theorem parseCookies_writeCookies (h : ∀ c ∈ cookies, Writable c) : parseCookies (writeCookies cookies) = cookies := by
  cases cookies with
  | nil => decide
  | cons first cookies =>
    obtain ⟨hfirst, hcookies⟩ := List.forall_mem_cons.1 h
    have hread : ((cookies.map writeCookie).map (" " ++ ·)).flatMap parseCookies = cookies := by
      rw [List.map_map, List.flatMap_map]
      calc cookies.flatMap (fun c => parseCookies (" " ++ writeCookie c))
          = cookies.flatMap (fun c => [c]) := List.flatMap_congr fun c hc => (hcookies c hc).parseCookies_blank
        _ = cookies := List.flatMap_singleton' cookies
    have hsep : "; " = ";" ++ " " := rfl
    rw [writeCookies, List.map_cons, hsep, intercalate_append, parseCookies_join, List.flatMap_cons, hread,
      hfirst.parseCookies_eq, List.singleton_append]

/-- **The cookies that can be written** are those that can be read. -/
theorem writable_iff : Writable cookie ↔ ∃ header, cookie ∈ parseCookies header := by
  refine ⟨fun h => ⟨writeCookie cookie, by rw [h.parseCookies_eq]; exact List.mem_singleton_self cookie⟩, ?_⟩
  rintro ⟨header, hmem⟩
  obtain ⟨piece, hpiece, hread⟩ := List.mem_filterMap.1 hmem
  obtain ⟨chars, hchars, rfl⟩ := List.mem_map.1 hpiece
  have hsemicolon : ';' ∉ chars := not_mem_of_mem_pieces hchars
  by_cases hequals : '=' ∈ chars
  · obtain ⟨name, value, rfl, hname⟩ := List.eq_append_cons_of_mem hequals
    have hpair : String.ofList (name ++ '=' :: value) = String.ofList name ++ "=" ++ String.ofList value :=
      String.toList_injective (by simp)
    rw [hpair, parseCookie?_pair (by simpa using hname)] at hread
    split at hread
    · cases hread
    · rename_i hnonempty
      obtain rfl := Option.some.inj hread
      have hfree : ';' ∉ name ∧ ';' ∉ value := by simpa using hsemicolon
      have hmem {c : Char} {cs : List Char} (hc : c ∉ cs) : c ∉ (trim (String.ofList cs)).toList := fun hmem =>
        hc (by simpa using mem_of_mem_trim hmem)
      exact ⟨hnonempty, trim_trim _, ⟨hmem hname, hmem hfree.1⟩, trim_trim _, hmem hfree.2⟩
  · rw [parseCookie?_bare (by simpa using hequals)] at hread
    cases hread

/-- Every header has the cookies of a written one. -/
theorem parseCookies_rewritten (header : String) :
    parseCookies (writeCookies (parseCookies header)) = parseCookies header :=
  parseCookies_writeCookies fun _ hc => writable_iff.2 ⟨header, hc⟩

/-- **Cookies are read back** in order, whatever is added between them that holds no cookie, and whatever white space is
added around pieces, names and values. -/
theorem cookies_read_back (h : ∀ c ∈ cookies, Writable c) : parseCookies (writeCookies cookies) = cookies ∧
    ∀ header, Relation.ReflTransGen Adds (writeCookies cookies) header → parseCookies header = cookies :=
  ⟨parseCookies_writeCookies h, fun _ hadds => (parseCookies_eq_of_adds hadds).trans (parseCookies_writeCookies h)⟩

end Written

/-- A value with an equals sign, an empty value and a repeated name, and then a piece without a name and a blank behind
a name. -/
theorem cookies_read_back_repeated :
    let cookies := [("a", "x=y"), ("b", ""), ("a", "1")]
    (∀ c ∈ cookies, Writable c) ∧ writeCookies cookies = "a=x=y; b=; a=1" ∧
      parseCookies "a=x=y; b=; a=1" = cookies ∧ parseCookies "a=x=y; b=;\t=z; a =1" = cookies := by
  intro cookies
  have hwritable : ∀ c ∈ cookies, Writable c := by decide
  have hwritten : writeCookies cookies = "a=x=y; b=; a=1" := by decide
  obtain ⟨hread, hadded⟩ := cookies_read_back hwritable
  rw [hwritten] at hread hadded
  have hpiece : Adds "a=x=y; b=; a=1" "a=x=y; b=;\t=z; a=1" := by
    have hadds := Adds.piece ["a=x=y", " b="] [" a=1"] (by decide : ';' ∉ ("\t" ++ "=" ++ "z").toList)
      (.nameless (by decide))
    have hheader : String.intercalate ";" (["a=x=y", " b="] ++ [" a=1"]) = "a=x=y; b=; a=1" := by decide
    rwa [hheader] at hadds
  have hblank : Adds "a=x=y; b=;\t=z; a=1" "a=x=y; b=;\t=z; a =1" := by
    have hadds := Adds.blanks ["a=x=y", " b=", "\t=z"] [] (by decide : ';' ∉ (" a" ++ "=" ++ "1").toList)
      (.name (by decide : AllBlank "".toList) (by decide : AllBlank " ".toList) (by decide))
    have hheader : String.intercalate ";" (["a=x=y", " b=", "\t=z"] ++ [" a" ++ "=" ++ "1"]) =
        "a=x=y; b=;\t=z; a=1" := by decide
    rwa [hheader] at hadds
  exact ⟨hwritable, hwritten, hread, hadded _ (.tail (.single hpiece) hblank)⟩

end ApiForge.Http
