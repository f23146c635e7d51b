import ApiForge.Description.Load
import ApiForge.Proofs.Description.Tidy
import ApiForge.Proofs.Route.Table
import ApiForge.Proofs.Text.Cutting

/-!
# Which addresses give a base path that requests lie under

The path of an address is built behind a slash, and no step of the reader takes that slash away. The one exception is an
address with a scheme of its own and no slash behind the colon: what follows the colon is then taken as it stands.

* `Path.read_slashed`: reading segments keeps the slash in front.
* `path?_cases`: the path of an address is empty, begins with a slash or belongs to an opaque address.
* `basePath_routable_iff`: a base path is routable exactly if the address is not opaque.
* `Description.basePath_routable`: the same for the base path of a description, and what it means for routing.
-/

namespace ApiForge.Url

open Text

/-- A base path that requests can lie under: it is empty, or it begins with a slash and ends with none. -/
def Routable (base : String) : Prop :=
  base = "" ∨ (base.toList.head? = some '/' ∧ base.toList.getLast? ≠ some '/')

/-- The texts that may stand before the colon of an address. -/
def IsScheme : List Char → Prop
  | [] => False
  | c :: s => isLetterAscii c ∧ ∀ x ∈ s, isAlnumAscii x ∨ x = '+' ∨ x = '-' ∨ x = '.'

/-- An address with a scheme that is neither of the web nor of files, and with something other than a slash, a query or
a fragment behind the colon. A host with a port looks like this, too. -/
def IsOpaque (url : String) : Prop :=
  ∃ scheme c rest, tidy url.toList = scheme ++ ':' :: c :: rest ∧ IsScheme scheme ∧
    kindOf (lowerAscii (String.ofList scheme)) = .other ∧ c ≠ '/' ∧ c ≠ '?' ∧ c ≠ '#'

/-- A path that begins with a slash. -/
def Slashed (path : List Char) : Prop := path.head? = some '/'

theorem slashed_iff {path : List Char} : Slashed path ↔ ∃ rest, path = '/' :: rest := by
  rw [Slashed, List.head?_eq_some_iff]

theorem Slashed.append {path : List Char} (h : Slashed path) (more : List Char) : Slashed (path ++ more) := by
  obtain ⟨rest, rfl⟩ := slashed_iff.1 h
  rfl

/-! ## Runs at the ends of a text -/

theorem dropTrailing_cons_of_ne {c d : Char} (h : c ≠ d) (cs : List Char) :
    dropTrailing d (c :: cs) = c :: dropTrailing d cs := by
  rw [dropTrailing, List.reverse_cons, dropWhile_append_cons (by simp [h]), List.reverse_append]
  rfl

theorem dropTrailing_prefix (d : Char) (cs : List Char) : dropTrailing d cs <+: cs := by
  rw [dropTrailing, ← List.reverse_suffix, List.reverse_reverse]
  exact List.dropWhile_suffix _

theorem dropTrailing_getLast? (d : Char) (cs : List Char) : (dropTrailing d cs).getLast? ≠ some d := by
  rw [dropTrailing, List.getLast?_reverse]
  intro h
  have hhead := List.head?_dropWhile_not (· == d) cs.reverse
  rw [h] at hhead
  simp at hhead

/-- Tidying an address keeps a visible beginning. -/
theorem tidy_append {lead : List Char} (hne : lead ≠ []) (h : ∀ x ∈ lead, 0x20 < x.toNat) (cs : List Char) :
    ∃ after, tidy (lead ++ cs) = lead ++ after := by
  have hinner : ∀ x ∈ lead, decide (x.toNat ≤ 0x20) = false := fun x hx => by
    simpa using h x hx
  have hfront : (lead ++ cs).dropWhile (fun x => decide (x.toNat ≤ 0x20)) = lead ++ cs := by
    obtain ⟨c, rest, rfl⟩ := List.exists_cons_of_ne_nil hne
    exact List.dropWhile_cons_of_neg (by simp [hinner c List.mem_cons_self])
  have hback : ∀ before : List Char, (before ++ lead.reverse).dropWhile (fun x => decide (x.toNat ≤ 0x20)) =
      before.dropWhile (fun x => decide (x.toNat ≤ 0x20)) ++ lead.reverse := by
    obtain ⟨c, rest, hlead⟩ := List.exists_cons_of_ne_nil (List.reverse_ne_nil_iff.2 hne)
    have hc : c ∈ lead := List.mem_reverse.1 (hlead ▸ List.mem_cons_self)
    rw [hlead]
    exact dropWhile_append_cons (hinner c hc) rest
  have hkept : lead.filter (fun c => c != '\t' && c != '\n' && c != '\r') = lead := by
    refine List.filter_eq_self.2 fun x hx => ?_
    have hx := h x hx
    simp only [Bool.and_eq_true, bne_iff_ne]
    refine ⟨⟨?_, ?_⟩, ?_⟩ <;> rintro rfl <;> simp at hx
  rw [tidy, hfront, List.reverse_append, hback, List.reverse_append, List.reverse_reverse, List.filter_append, hkept]
  exact ⟨_, rfl⟩

/-! ## Paths -/

namespace Path

/-- The first slash of a path is at its beginning, so it is not behind the last one. -/
theorem toLastSlash_slashed {path : List Char} (h : Slashed path) : Slashed (toLastSlash path) := by
  obtain ⟨rest, rfl⟩ := slashed_iff.1 h
  rw [toLastSlash, List.reverse_cons, dropWhile_append_cons (by decide), List.reverse_append]
  rfl

theorem shorten_slashed (kind : Kind) {path : List Char} (h : Slashed path) : Slashed (shorten kind path) := by
  rw [shorten]
  split
  · exact h
  · exact toLastSlash_slashed h

/-- A path that has a slash without its last character begins with the slash even so. -/
theorem dropLast_slashed {path : List Char} (h : Slashed path) (hmem : path.dropLast.contains '/') :
    Slashed path.dropLast := by
  obtain ⟨rest, rfl⟩ := slashed_iff.1 h
  cases rest with
  | nil => simp at hmem
  | cons c rest => rfl

theorem climb_slashed (kind : Kind) (slash : Bool) {path : List Char} (h : Slashed path) :
    Slashed (climb kind slash path) := by
  unfold climb
  extract_lets before removable shortened
  have hshortened : Slashed shortened := by
    refine shorten_slashed kind ?_
    split
    · rename_i hrem
      simp only [removable, Bool.and_eq_true] at hrem
      exact dropLast_slashed h hrem.1.2
    · exact h
  split
  · exact hshortened.append _
  · exact hshortened

theorem push_slashed (kind : Kind) (segment : List Char) (slash : Bool) {path : List Char} (h : Slashed path) :
    Slashed (push kind path segment slash) := by
  unfold push
  extract_lets ending
  split
  · exact climb_slashed kind slash h
  · split
    · split
      · exact h
      · exact h.append _
    · split
      · exact ((h.append _).append _).append _
      · exact (h.append _).append _

/-- A path keeps the slash in front, whatever segments follow. -/
theorem read_slashed (kind : Kind) : ∀ (fuel : Nat) {path : List Char} (input : List Char), Slashed path →
    Slashed (read kind fuel path input)
  | 0, _, _, h => h
  | fuel + 1, path, input, h => by
    unfold read
    extract_lets raw segment
    split
    · split
      · exact push_slashed kind segment false h
      · exact read_slashed kind fuel _ (push_slashed kind segment true h)
    · exact push_slashed kind segment false h

end Path

theorem pathAfter_slashed (kind : Kind) (input : List Char) : Slashed (pathAfter kind ['/'] input) := by
  unfold pathAfter
  extract_lets p
  split
  · rfl
  · exact Path.read_slashed kind _ input rfl

/-! ## Addresses -/

/-- What the path behind a host is: nothing, or a path that begins with a slash. -/
theorem pathStart_cases (kind : Kind) (input : List Char) :
    pathStart kind input = [] ∨ Slashed (pathStart kind input) := by
  cases input with
  | nil =>
    rw [pathStart]
    split
    · exact .inr rfl
    · exact .inl rfl
  | cons c rest =>
    rw [pathStart]
    split_ifs
    all_goals first
      | exact .inl rfl
      | exact .inr (pathAfter_slashed kind _)

theorem behindHost_cases {kind : Kind} {tail path : List Char}
    (h : (match tail with
      | ':' :: r => (afterPort? r).bind fun rest => some (pathStart kind rest)
      | rest => some (pathStart kind rest)) = some path) : path = [] ∨ Slashed path := by
  split at h
  · obtain ⟨rest, -, hpath⟩ := Option.bind_eq_some_iff.1 h
    cases hpath
    exact pathStart_cases kind rest
  · cases h
    exact pathStart_cases kind _

theorem afterSlashes?_cases {kind : Kind} {input path : List Char} (h : afterSlashes? kind input = some path) :
    path = [] ∨ Slashed path := by
  unfold afterSlashes? at h
  extract_lets authority hasUser hostPart user rest atPort atHost at h
  simp only [atHost, atPort, Option.bind_eq_bind, Option.pure_def, Option.bind_none, Option.bind_some,
    Option.ite_none_left_eq_some] at h
  -- the host may be refused in two ways, but what follows it is read the same way
  obtain ⟨-, h⟩ := h
  split at h
  · obtain ⟨-, -, h⟩ := Option.bind_eq_some_iff.1 h
    exact behindHost_cases (Option.ite_none_left_eq_some.1 h).2
  · exact behindHost_cases (Option.ite_none_left_eq_some.1 (Option.ite_none_left_eq_some.1 h).2).2

theorem filePath?_cases {input path : List Char} (h : filePath? input = some path) : path = [] ∨ Slashed path := by
  unfold filePath? at h
  extract_lets isSlash at h
  split at h
  · split at h
    · extract_lets host at h
      split at h
      · cases h
        exact .inr (pathAfter_slashed .file _)
      · split at h
        · cases h
          exact pathStart_cases .file _
        · cases h
    · cases h
      exact .inr (pathAfter_slashed .file _)
  · cases h
    exact .inr (pathAfter_slashed .file _)

theorem IsScheme.colon_not_mem {s : List Char} (h : IsScheme s) : ':' ∉ s := by
  cases s with
  | nil => exact h.elim
  | cons c s =>
    rw [List.mem_cons, not_or]
    constructor
    · rintro rfl
      exact absurd h.1 (by decide)
    · intro hmem
      exact absurd (h.2 ':' hmem) (by decide)

/-- A scheme is what stands before the first colon, if it is one. -/
theorem scheme?_eq_some_iff {cs : List Char} {scheme : String} {rest : List Char} :
    scheme? cs = some (scheme, rest) ↔
      ∃ s, cs = s ++ ':' :: rest ∧ IsScheme s ∧ scheme = lowerAscii (String.ofList s) := by
  unfold scheme?
  constructor
  · intro h
    split at h
    · rename_i c s after hcut
      split at h
      · rename_i hscheme
        simp only [Bool.and_eq_true, List.all_eq_true, Bool.or_eq_true, beq_iff_eq, or_assoc] at hscheme
        cases h
        exact ⟨c :: s, (cut?_eq_some_iff.1 hcut).1, hscheme, rfl⟩
      · cases h
    · cases h
  · rintro ⟨s, rfl, hscheme, rfl⟩
    have hcolon : ':' ∉ s := hscheme.colon_not_mem
    rw [cut?_eq_some_iff.2 ⟨rfl, hcolon⟩]
    cases s with
    | nil => exact hscheme.elim
    | cons c s =>
      rw [IsScheme] at hscheme
      refine if_pos ?_
      simpa only [Bool.and_eq_true, List.all_eq_true, Bool.or_eq_true, beq_iff_eq, or_assoc] using hscheme

theorem isOpaque_iff {url : String} : IsOpaque url ↔
    ∃ scheme c rest, scheme? (tidy url.toList) = some (scheme, c :: rest) ∧ kindOf scheme = .other ∧
      c ≠ '/' ∧ c ≠ '?' ∧ c ≠ '#' := by
  constructor
  · rintro ⟨s, c, rest, htidy, hscheme, hkind, hc⟩
    exact ⟨_, c, rest, scheme?_eq_some_iff.2 ⟨s, htidy, hscheme, rfl⟩, hkind, hc⟩
  · rintro ⟨scheme, c, rest, hscheme, hkind, hc⟩
    obtain ⟨s, htidy, hs, rfl⟩ := scheme?_eq_some_iff.1 hscheme
    exact ⟨s, c, rest, htidy, hs, hkind, hc⟩

/-- A character other than a slash is written as itself or as a code, which begins with a percent sign. -/
theorem encode_head (special : Char → Bool) {c : Char} (h : c ≠ '/') (cs : List Char) :
    ∃ d rest, Percent.encode special (c :: cs) = d :: rest ∧ d ≠ '/' := by
  rw [Percent.encode, List.flatMap_cons]
  split
  · cases hbytes : Utf8.encode [c] with
    | nil => exact absurd hbytes (by simp [Utf8.encode, String.utf8EncodeChar_ne_nil])
    | cons b bytes => exact ⟨'%', _, rfl, by decide⟩
  · exact ⟨c, _, rfl, h⟩

/-- The path of an address is empty or begins with a slash, unless the address is opaque. -/
theorem path?_cases {text p : String} (h : path? text = some p) (hop : ¬ IsOpaque text) :
    p.toList = [] ∨ Slashed p.toList := by
  obtain ⟨⟨scheme, rest⟩, hscheme, h⟩ := Option.bind_eq_some_iff.1 h
  dsimp only at h
  split at h
  · obtain ⟨path, hpath, hp⟩ := Option.bind_eq_some_iff.1 h
    cases hp
    rw [String.toList_ofList]
    exact afterSlashes?_cases hpath
  · obtain ⟨path, hpath, hp⟩ := Option.bind_eq_some_iff.1 h
    cases hp
    rw [String.toList_ofList]
    exact filePath?_cases hpath
  · rename_i hkind
    split at h
    · obtain ⟨path, hpath, hp⟩ := Option.bind_eq_some_iff.1 h
      cases hp
      rw [String.toList_ofList]
      exact afterSlashes?_cases hpath
    · cases h
      rw [String.toList_ofList]
      exact .inr (pathAfter_slashed .other _)
    · rename_i hslash
      cases h
      rw [String.toList_ofList]
      cases rest with
      | nil => exact .inl rfl
      | cons c rest =>
        have hend : c = '?' ∨ c = '#' := by
          by_contra hno
          rw [not_or] at hno
          exact hop (isOpaque_iff.2 ⟨scheme, c, rest, hscheme, hkind, fun hc => hslash rest (hc ▸ rfl), hno⟩)
        left
        rw [List.takeWhile_cons_of_neg (by rcases hend with rfl | rfl <;> decide)]
        rfl

/-- The path of an opaque address begins with the character behind the colon, or with its code. -/
theorem path?_opaque {text : String} (h : IsOpaque text) :
    ∃ c rest, path? text = some (String.ofList (c :: rest)) ∧ c ≠ '/' := by
  obtain ⟨scheme, c, rest, hscheme, hkind, hslash, hquery, hfragment⟩ := isOpaque_iff.1 h
  have hkept : (c :: rest).takeWhile (fun c => c != '?' && c != '#') =
      c :: rest.takeWhile fun c => c != '?' && c != '#' :=
    List.takeWhile_cons_of_pos (by simp [hquery, hfragment])
  obtain ⟨d, encoded, hencoded, hd⟩ := encode_head isControl hslash (rest.takeWhile fun c => c != '?' && c != '#')
  refine ⟨d, encoded, ?_, hd⟩
  simp only [path?, hscheme, Option.bind_eq_bind, Option.bind_some, hkind]
  split
  · rename_i heq
    cases heq
    exact absurd rfl hslash
  · rename_i heq
    cases heq
    exact absurd rfl hslash
  · rw [hkept, hencoded]
    rfl

/-- Behind a scheme of the web, nothing is opaque. -/
theorem not_isOpaque_http (url : String) : ¬ IsOpaque ("http://dummy" ++ url) := by
  intro h
  obtain ⟨scheme, c, rest, hscheme, hkind, -⟩ := isOpaque_iff.1 h
  obtain ⟨after, htidy⟩ : ∃ after, tidy ("http://dummy" ++ url).toList = "http://dummy".toList ++ after := by
    rw [String.toList_append]
    exact tidy_append (by simp) (by simp) url.toList
  have hweb : IsScheme ['h', 't', 't', 'p'] := ⟨by decide, by simp [isAlnumAscii, isLetterAscii, isLowerAscii]⟩
  have hhttp : scheme? ("http://dummy".toList ++ after) = some ("http", "//dummy".toList ++ after) :=
    scheme?_eq_some_iff.2 ⟨['h', 't', 't', 'p'], rfl, hweb, by decide +kernel⟩
  rw [htidy, hhttp] at hscheme
  cases hscheme
  cases hkind

/-! ## Base paths -/

theorem routable_dropTrailing {path : List Char} (h : path = [] ∨ Slashed path) :
    Routable (String.ofList (dropTrailing '/' path)) := by
  cases hkept : dropTrailing '/' path with
  | nil => exact .inl rfl
  | cons c kept =>
    right
    have hpre := dropTrailing_prefix '/' path
    have hlast := dropTrailing_getLast? '/' path
    rw [hkept] at hpre hlast
    rw [String.toList_ofList]
    refine ⟨?_, hlast⟩
    rcases h with rfl | hslashed
    · exact absurd (List.prefix_nil.1 hpre) (List.cons_ne_nil c kept)
    · obtain ⟨rest, rfl⟩ := slashed_iff.1 hslashed
      rw [(List.cons_prefix_cons.1 hpre).1]
      rfl

/-- The base path of an opaque address begins with what the path of the address begins with. -/
theorem basePath_opaque {url : String} (h : IsOpaque url) : ∃ c rest, (basePath url).toList = c :: rest ∧ c ≠ '/' := by
  obtain ⟨c, rest, hpath, hc⟩ := path?_opaque h
  refine ⟨c, dropTrailing '/' rest, ?_, hc⟩
  rw [basePath, hpath]
  simp only [Option.orElse_some, String.toList_ofList]
  exact dropTrailing_cons_of_ne hc rest

/-- A base path is routable exactly if the address is not opaque. -/
theorem basePath_routable_iff (url : String) : Routable (basePath url) ↔ ¬ IsOpaque url := by
  constructor
  · intro hroutable hop
    obtain ⟨c, rest, hbase, hc⟩ := basePath_opaque hop
    rcases hroutable with hempty | ⟨hslash, -⟩
    · rw [hempty] at hbase
      cases hbase
    · rw [hbase] at hslash
      cases hslash
      exact hc rfl
  · intro hop
    rw [basePath]
    split
    · rename_i p hp
      refine routable_dropTrailing ?_
      cases hurl : path? url with
      | some q =>
        rw [hurl] at hp
        cases hp
        exact path?_cases hurl hop
      | none =>
        rw [hurl] at hp
        exact path?_cases hp (not_isOpaque_http url)
    · exact .inl rfl

end ApiForge.Url

namespace ApiForge

open Json Route Url

/-- What a base path begins with, all paths below it begin with. -/
theorem Route.Below.head?_eq {base path rel : String} (h : Below base path rel) {c : Char} {rest : List Char}
    (hbase : base.toList = c :: rest) : path.toList.head? = some c := by
  cases h with
  | anywhere hempty =>
    rw [hempty] at hbase
    cases hbase
  | top hne hpath =>
    rw [hpath, hbase]
    rfl
  | inside more hne hpath =>
    rw [hpath, String.toList_append, hbase]
    rfl

/-! ## Descriptions -/

namespace Description

/-- The address of the first server of a document. -/
def serverUrl? (document : Json) : Option String :=
  (((document.get? "servers").bind Json.items?).bind List.head?).bind (·.textAt? "url")

theorem serverUrl?_tidyPaths (document : Json) : serverUrl? (tidyPaths document) = serverUrl? document := by
  rw [serverUrl?, get?_tidyPaths_of_ne (by decide), serverUrl?]

theorem heading?_of_isDescription {document : Json} (h : isDescription document = true) :
    ∃ title, Reader.standard.heading? document = some ⟨title, serverUrl? document⟩ :=
  ⟨_, if_pos h⟩

/-- The heading of a document that is a description has the address of its first server. -/
theorem server?_of_heading? {document : Json} {heading : Heading}
    (h : Reader.standard.heading? document = some heading) : heading.server? = serverUrl? document := by
  cases hvalid : isDescription document with
  | true =>
    obtain ⟨title, htitle⟩ := heading?_of_isDescription hvalid
    rw [htitle] at h
    cases h
    rfl
  | false =>
    have hnone : Reader.standard.heading? document = none := if_neg (Bool.eq_false_iff.1 hvalid)
    rw [hnone] at h
    cases h

theorem ofDocument_basePath {source : String} {document : Json} {d : Description}
    (h : ofDocument source document = .ok d) : d.basePath = ((serverUrl? document).map Url.basePath).getD "" := by
  unfold ofDocument Reader.ofDocument at h
  dsimp only at h
  split at h
  · rename_i heading hheading
    cases h
    rw [← serverUrl?_tidyPaths, ← server?_of_heading? hheading]
  · cases h

theorem ofDocument_of_isDescription (source : String) {document : Json}
    (h : isDescription (tidyPaths document) = true) : ∃ d, ofDocument source document = .ok d := by
  obtain ⟨title, htitle⟩ := heading?_of_isDescription h
  unfold ofDocument Reader.ofDocument
  dsimp only
  rw [htitle]
  exact ⟨_, rfl⟩

/-- The base path of a description is usable for routing, unless the address of the first server is opaque. Where it is
usable, request paths lie below it; where it is not, no request path leads to any route. -/
theorem basePath_routable {source : String} {document : Json} {d : Description}
    (h : ofDocument source document = .ok d) :
    (Routable d.basePath ↔ ¬ ∃ url, serverUrl? document = some url ∧ IsOpaque url) ∧
    (Routable d.basePath → ∀ rest, (d.basePath ++ ("/" ++ rest)).toList.head? = some '/' ∧
      Below d.basePath (d.basePath ++ ("/" ++ rest)) ("/" ++ rest)) ∧
    (¬ Routable d.basePath → ∀ entries method rest,
      (Table.mk entries d.basePath).route method ("/" ++ rest) = .noMatch) := by
  rw [ofDocument_basePath h]
  cases serverUrl? document with
  | none =>
    have hroutable : Routable "" := .inl rfl
    refine ⟨iff_of_true hroutable ?_, fun _ rest => ?_, fun hno => ?_⟩
    · rintro ⟨url, ⟨⟩, -⟩
    · exact ⟨by rw [Option.map_none, Option.getD_none, String.empty_append, toList_slash]; rfl, below_append _ rest⟩
    · exact absurd hroutable hno
  | some url =>
    rw [Option.map_some, Option.getD_some]
    refine ⟨?_, fun hroutable rest => ⟨?_, below_append _ rest⟩, fun hno entries method rest => ?_⟩
    · rw [basePath_routable_iff]
      simp only [Option.some.injEq, exists_eq_left']
    · rw [String.toList_append, toList_slash]
      rcases hroutable with hempty | ⟨hslash, -⟩
      · rw [hempty]
        rfl
      · rw [List.head?_append, hslash]
        rfl
    · rw [basePath_routable_iff, not_not] at hno
      obtain ⟨c, base, hbase, hc⟩ := basePath_opaque hno
      have hrel : (Table.mk entries (Url.basePath url)).relative? ("/" ++ rest) = none := by
        refine Option.eq_none_iff_forall_ne_some.2 fun rel hrel => ?_
        have hhead := (Table.relative?_eq_some_iff.1 hrel).head?_eq hbase
        rw [toList_slash] at hhead
        cases hhead
        exact hc rfl
      rw [Table.route, hrel]

/-- A document that serves no operation at an address. -/
private def servedAt (url : String) : Json :=
  .obj [("openapi", .str "3.0.0"), ("info", .obj [("title", .str "Pets"), ("version", .str "1")]),
    ("servers", .arr [.obj [("url", .str url)]]), ("paths", .obj [])]

theorem basePath_routable_versioned : ∃ d, ofDocument "pets" (servedAt "https://pets.example/v1/") = .ok d ∧
    d.basePath = "/v1" ∧ Routable d.basePath ∧
    ∀ rest, Below d.basePath (d.basePath ++ ("/" ++ rest)) ("/" ++ rest) := by
  have hvalid : isDescription (tidyPaths (servedAt "https://pets.example/v1/")) = true := by decide +kernel
  obtain ⟨d, h⟩ := ofDocument_of_isDescription "pets" hvalid
  have hbase : d.basePath = "/v1" := by
    rw [ofDocument_basePath h]
    decide +kernel
  have hroutable : Routable d.basePath := hbase ▸ .inr (by decide +kernel)
  exact ⟨d, h, hbase, hroutable, fun rest => ((basePath_routable h).2.1 hroutable rest).2⟩

/-- A host with a port and no scheme: the host is taken for a scheme, and the port begins the base path. -/
theorem basePath_of_host_and_port : ∃ d, ofDocument "pets" (servedAt "localhost:8080/api") = .ok d ∧
    d.basePath = "8080/api" ∧ ¬ Routable d.basePath := by
  have hvalid : isDescription (tidyPaths (servedAt "localhost:8080/api")) = true := by decide +kernel
  obtain ⟨d, h⟩ := ofDocument_of_isDescription "pets" hvalid
  have hbase : d.basePath = "8080/api" := by
    rw [ofDocument_basePath h]
    decide +kernel
  refine ⟨d, h, hbase, ?_⟩
  rw [hbase]
  rintro (hempty | ⟨hslash, -⟩)
  · revert hempty
    decide
  · revert hslash
    decide

end Description

end ApiForge
