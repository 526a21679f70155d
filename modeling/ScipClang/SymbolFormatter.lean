import ScipClang.Scip.ForwardDecls
import ScipClang.Worker.PackageMap

/-!
# Symbol strings

How a symbol, that is, a package and a list of descriptors, is written as a string
(`indexer/SymbolFormatter.cc`).  Names are quoted where they contain characters with a
meaning of their own, and the part for the package ends in `$ `, at which
`getPackageAgnosticSuffix` splits the string again.

* `DescriptorBuilder.formatTo_append_inj`: a descriptor can be read off the front of a
  string.
* `SymbolBuilder.getPackageAgnosticSuffix_formatTo`: the suffix of a symbol is what its
  descriptors are written as.
-/

namespace ScipClang

/-! ## Quoting -/

/-- The characters that `operator<<(Escaped)` passes over. -/
def isSimpleChar (c : Char) : Bool :=
  ('a' ≤ c && c ≤ 'z') || ('A' ≤ c && c ≤ 'Z') || ('0' ≤ c && c ≤ '9') ||
    c == '+' || c == '-' || c == '$' || c == '_'

/-- `absl::StrReplaceAll` for a single character that is doubled. -/
def doubled (special : Char) (text : Str) : Str :=
  text.flatMap fun c => if c = special then [c, c] else [c]

/-- `operator<<(Escaped)`. -/
def escaped (text : Str) : Str :=
  let needsEscape := text.any (!isSimpleChar ·)
  let needsBacktickEscape := text.any (· == '`')
  if needsEscape then
    if needsBacktickEscape then '`' :: (doubled '`' text ++ ['`'])
    else '`' :: (text ++ ['`'])
  else text

/-- `addSpaceEscaped`. -/
def addSpaceEscaped (text : Str) : Str :=
  if ' ' ∈ text then doubled ' ' text else text

/-! ## Descriptors and symbols -/

/-- `scip::Descriptor::Suffix`. -/
inductive DescriptorSuffix where
  | UnspecifiedSuffix
  | Namespace
  | Type
  | Term
  | Method
  | TypeParameter
  | Parameter
  | Meta
  | Local
  | Macro
deriving DecidableEq

/-- `DescriptorBuilder`. -/
@[ext]
structure DescriptorBuilder where
  name : Str
  disambiguator : Str := []
  suffix : DescriptorSuffix
deriving DecidableEq

namespace DescriptorBuilder

/-- `DescriptorBuilder::formatTo`; nothing is written for the two suffixes that it does not
know. -/
def formatTo (descriptor : DescriptorBuilder) : Str :=
  match descriptor.suffix with
  | .Namespace => escaped descriptor.name ++ ['/']
  | .Type => escaped descriptor.name ++ ['#']
  | .Term => escaped descriptor.name ++ ['.']
  | .Meta => escaped descriptor.name ++ [':']
  | .Method =>
      escaped descriptor.name ++ ['('] ++ escaped descriptor.disambiguator ++ [')', '.']
  | .TypeParameter => ['['] ++ escaped descriptor.name ++ [']']
  | .Parameter => ['('] ++ escaped descriptor.name ++ [')']
  | .Macro => escaped descriptor.name ++ ['!']
  | .UnspecifiedSuffix => []
  | .Local => []

/-- The descriptors that the indexer builds. -/
structure WellFormed (descriptor : DescriptorBuilder) : Prop where
  name_ne_nil : descriptor.name ≠ []
  suffix_known : descriptor.suffix ≠ .UnspecifiedSuffix ∧ descriptor.suffix ≠ .Local
  disambiguator_nil : descriptor.suffix ≠ .Method → descriptor.disambiguator = []

end DescriptorBuilder

/-- `SymbolBuilder`. -/
@[ext]
structure SymbolBuilder where
  packageId : PackageId
  descriptors : List DescriptorBuilder
deriving DecidableEq

namespace SymbolBuilder

/-- What `SymbolBuilder::formatTo` writes before the descriptors. -/
def formatPackage (packageId : PackageId) : Str :=
  "cxx . ".toList ++
    (if packageId.name = [] then ". ".toList else addSpaceEscaped packageId.name ++ [' ']) ++
    (if packageId.version ≠ [] then addSpaceEscaped packageId.version else []) ++ "$ ".toList

/-- `SymbolBuilder::formatTo`, into an empty buffer. -/
def formatTo (symbol : SymbolBuilder) : Str :=
  formatPackage symbol.packageId ++ symbol.descriptors.flatMap DescriptorBuilder.formatTo

/-- `SymbolBuilder::formatContextual`, into an empty buffer. -/
def formatContextual (contextSymbol : Str) (descriptor : DescriptorBuilder) : Str :=
  contextSymbol ++ descriptor.formatTo

end SymbolBuilder

/-- `SymbolFormatter::formatLocal`. -/
def formatLocal (counter : Nat) : Str := "local ".toList ++ Nat.toDigits 10 counter

/-! ## Reading off a name -/

/-- A character that can follow a name. -/
def IsDelimiter (c : Char) : Prop := isSimpleChar c = false ∧ c ≠ '`'

instance (c : Char) : Decidable (IsDelimiter c) :=
  inferInstanceAs (Decidable (isSimpleChar c = false ∧ c ≠ '`'))

theorem doubled_of_notMem {special : Char} {text : Str} (h : special ∉ text) :
    doubled special text = text := by
  induction text with
  | nil => rfl
  | cons c text ih =>
      have hc : c ≠ special := fun heq => h (heq ▸ List.mem_cons_self)
      have hrest : special ∉ text := fun hmem => h (List.mem_cons_of_mem _ hmem)
      rw [doubled, List.flatMap_cons, if_neg hc]
      exact congrArg (c :: ·) (ih hrest)

/-- A name is either written as it is, or quoted. -/
theorem escaped_eq (text : Str) :
    escaped text =
      if text.all isSimpleChar then text else '`' :: (doubled '`' text ++ ['`']) := by
  have hany : (text.any (!isSimpleChar ·)) = !text.all isSimpleChar := by
    rw [List.not_all_eq_any_not]
  unfold escaped
  rw [hany]
  by_cases hall : text.all isSimpleChar
  · simp [hall]
  · simp only [hall, Bool.not_false, if_true]
    split
    · rfl
    · rename_i htick
      have hnot : '`' ∉ text := by simpa using htick
      rw [doubled_of_notMem hnot]
      simp

/-- A quoted text can be read off up to the closing backtick. -/
theorem doubled_append_inj {a b r s : Str} (hr : r.head? ≠ some '`') (hs : s.head? ≠ some '`')
    (h : doubled '`' a ++ '`' :: r = doubled '`' b ++ '`' :: s) : a = b ∧ r = s := by
  induction a generalizing b with
  | nil =>
      cases b with
      | nil => exact ⟨rfl, List.tail_eq_of_cons_eq h⟩
      | cons c b =>
          simp only [doubled, List.flatMap_nil, List.flatMap_cons, List.nil_append] at h
          by_cases hc : c = '`'
          -- a doubled backtick would stand where the name has ended
          · rw [if_pos hc, hc] at h
            rw [List.tail_eq_of_cons_eq h] at hr
            exact absurd rfl hr
          · rw [if_neg hc] at h
            exact absurd (List.head_eq_of_cons_eq h).symm hc
  | cons c a ih =>
      cases b with
      | nil =>
          simp only [doubled, List.flatMap_nil, List.flatMap_cons, List.nil_append] at h
          by_cases hc : c = '`'
          · rw [if_pos hc, hc] at h
            rw [← List.tail_eq_of_cons_eq h] at hs
            exact absurd rfl hs
          · rw [if_neg hc] at h
            exact absurd (List.head_eq_of_cons_eq h) hc
      | cons d b =>
          simp only [doubled, List.flatMap_cons, List.append_assoc] at h
          have hcd : c = d := by
            by_cases hc : c = '`'
            · by_cases hd : d = '`'
              · rw [hc, hd]
              · rw [if_pos hc, if_neg hd] at h
                exact List.head_eq_of_cons_eq h
            · by_cases hd : d = '`'
              · rw [if_neg hc, if_pos hd] at h
                exact List.head_eq_of_cons_eq h
              · rw [if_neg hc, if_neg hd] at h
                exact List.head_eq_of_cons_eq h
          subst hcd
          obtain ⟨hab, hrs⟩ := ih (List.append_cancel_left h)
          exact ⟨congrArg (c :: ·) hab, hrs⟩

/-- A name of simple characters can be read off up to the delimiter. -/
theorem simple_append_inj {a b r s : Str} {c d : Char} (ha : a.all isSimpleChar = true)
    (hb : b.all isSimpleChar = true) (hc : IsDelimiter c) (hd : IsDelimiter d)
    (h : a ++ c :: r = b ++ d :: s) : a = b ∧ c :: r = d :: s := by
  have htake : ∀ {t u : Str} {e : Char}, t.all isSimpleChar = true → IsDelimiter e →
      (t ++ e :: u).takeWhile isSimpleChar = t := by
    intro t u e ht he
    rw [List.takeWhile_append_of_pos fun x hx => List.all_eq_true.mp ht x hx,
      List.takeWhile_cons_of_neg (by simp [he.1]), List.append_nil]
  have hab : a = b := by
    rw [← htake (u := r) ha hc, h, htake hb hd]
  subst hab
  exact ⟨rfl, List.append_cancel_left h⟩

/-- A simple name, possibly empty, is not followed by a backtick. -/
theorem simple_ne_quoted {a r s : Str} {c : Char} (ha : a.all isSimpleChar = true)
    (hc : IsDelimiter c) : a ++ c :: r ≠ '`' :: s := by
  intro h
  cases a with
  | nil => exact hc.2 (List.head_eq_of_cons_eq h)
  | cons e a =>
      have he : isSimpleChar e = true := List.all_eq_true.mp ha e List.mem_cons_self
      rw [List.head_eq_of_cons_eq h] at he
      exact absurd he (by decide)

/-- **A name can be read off the front of a string**, if a delimiter follows. -/
theorem escaped_append_inj {a b r s : Str} {c d : Char} (hc : IsDelimiter c)
    (hd : IsDelimiter d) (h : escaped a ++ c :: r = escaped b ++ d :: s) :
    a = b ∧ c :: r = d :: s := by
  rw [escaped_eq, escaped_eq] at h
  have hquoted : ∀ t u : Str, '`' :: (doubled '`' t ++ ['`']) ++ u =
      '`' :: (doubled '`' t ++ '`' :: u) := by
    intro t u
    simp
  by_cases ha : a.all isSimpleChar = true
  · by_cases hb : b.all isSimpleChar = true
    · rw [if_pos ha, if_pos hb] at h
      exact simple_append_inj ha hb hc hd h
    · rw [if_pos ha, if_neg hb, hquoted] at h
      exact absurd h (simple_ne_quoted ha hc)
  · by_cases hb : b.all isSimpleChar = true
    · rw [if_neg ha, if_pos hb, hquoted] at h
      exact absurd h.symm (simple_ne_quoted hb hd)
    · rw [if_neg ha, if_neg hb, hquoted, hquoted] at h
      refine doubled_append_inj ?_ ?_ (List.tail_eq_of_cons_eq h)
      · exact fun heq => hc.2 (Option.some.inj heq)
      · exact fun heq => hd.2 (Option.some.inj heq)

/-! ## Reading off a descriptor -/

namespace DescriptorBuilder

variable {d e : DescriptorBuilder}

/-- What stands before the name. -/
def opening (descriptor : DescriptorBuilder) : Str :=
  match descriptor.suffix with
  | .TypeParameter => ['[']
  | .Parameter => ['(']
  | _ => []

/-- The character after the name. -/
def delimiter (descriptor : DescriptorBuilder) : Char :=
  match descriptor.suffix with
  | .Namespace => '/'
  | .Type => '#'
  | .Term => '.'
  | .Meta => ':'
  | .Method => '('
  | .TypeParameter => ']'
  | .Parameter => ')'
  | .Macro => '!'
  | .UnspecifiedSuffix => ' '
  | .Local => ' '

/-- What stands after that. -/
def closing (descriptor : DescriptorBuilder) : Str :=
  match descriptor.suffix with
  | .Method => escaped descriptor.disambiguator ++ [')', '.']
  | _ => []

theorem isDelimiter_delimiter (d : DescriptorBuilder) : IsDelimiter d.delimiter := by
  unfold delimiter
  cases d.suffix <;> decide

theorem formatTo_eq (h : d.WellFormed) :
    d.formatTo = d.opening ++ (escaped d.name ++ d.delimiter :: d.closing) := by
  obtain ⟨hunspecified, hlocal⟩ := h.suffix_known
  unfold formatTo opening delimiter closing
  cases hsuffix : d.suffix <;> simp_all

/-- The first character of a name is no opening bracket. -/
theorem head?_escaped {name : Str} (h : name ≠ []) (r : Str) :
    (escaped name ++ r).head? ≠ some '[' ∧ (escaped name ++ r).head? ≠ some '(' := by
  rw [escaped_eq]
  split
  · rename_i hall
    cases name with
    | nil => exact absurd rfl h
    | cons c name =>
        have hc : isSimpleChar c = true := List.all_eq_true.mp hall c List.mem_cons_self
        constructor
        · intro hhead
          rw [Option.some.inj hhead] at hc
          exact absurd hc (by decide)
        · intro hhead
          rw [Option.some.inj hhead] at hc
          exact absurd hc (by decide)
  · simp

/-- Opening bracket or not, what follows is the name. -/
theorem opening_append_inj (hd : d.WellFormed) (he : e.WellFormed) {r s : Str}
    (h : d.opening ++ (escaped d.name ++ r) = e.opening ++ (escaped e.name ++ s)) :
    d.opening = e.opening ∧ escaped d.name ++ r = escaped e.name ++ s := by
  have hcases : ∀ f : DescriptorBuilder,
      f.opening = [] ∨ f.opening = ['['] ∨ f.opening = ['('] := by
    intro f
    unfold opening
    cases f.suffix <;> simp
  have hdname := head?_escaped hd.name_ne_nil r
  have hename := head?_escaped he.name_ne_nil s
  rcases hcases d with hopen | hopen | hopen <;> rcases hcases e with hopen' | hopen' | hopen' <;>
    rw [hopen, hopen'] at h ⊢
  · exact ⟨rfl, h⟩
  · exact absurd (congrArg List.head? h) hdname.1
  · exact absurd (congrArg List.head? h) hdname.2
  · exact absurd (congrArg List.head? h).symm hename.1
  · exact ⟨rfl, List.tail_eq_of_cons_eq h⟩
  · exact absurd (List.head_eq_of_cons_eq h) (by decide)
  · exact absurd (congrArg List.head? h).symm hename.2
  · exact absurd (List.head_eq_of_cons_eq h) (by decide)
  · exact ⟨rfl, List.tail_eq_of_cons_eq h⟩

/-- The suffix kind is known from the brackets and the delimiter. -/
theorem suffix_eq (hd : d.WellFormed) (he : e.WellFormed) (hopen : d.opening = e.opening)
    (hdelim : d.delimiter = e.delimiter) : d.suffix = e.suffix := by
  obtain ⟨hunspecified, hlocal⟩ := hd.suffix_known
  obtain ⟨hunspecified', hlocal'⟩ := he.suffix_known
  unfold opening at hopen
  unfold delimiter at hdelim
  cases hs : d.suffix <;> cases hs' : e.suffix <;> simp_all

/-- **A descriptor can be read off the front of a string.** -/
theorem formatTo_append_inj (hd : d.WellFormed) (he : e.WellFormed) {r s : Str}
    (h : d.formatTo ++ r = e.formatTo ++ s) : d = e ∧ r = s := by
  rw [formatTo_eq hd, formatTo_eq he] at h
  simp only [List.append_assoc, List.cons_append] at h
  obtain ⟨hopen, hrest⟩ := opening_append_inj hd he h
  obtain ⟨hname, hrest⟩ :=
    escaped_append_inj (isDelimiter_delimiter d) (isDelimiter_delimiter e) hrest
  have hsuffix := suffix_eq hd he hopen (List.head_eq_of_cons_eq hrest)
  replace hrest := List.tail_eq_of_cons_eq hrest
  unfold closing at hrest
  by_cases hmethod : d.suffix = .Method
  · -- a method has a disambiguator, which is read off like a name
    rw [← hsuffix, hmethod] at hrest
    simp only [List.append_assoc, List.cons_append, List.nil_append] at hrest
    obtain ⟨hdisambiguator, hrest⟩ := escaped_append_inj (by decide) (by decide) hrest
    refine ⟨DescriptorBuilder.ext hname hdisambiguator hsuffix, ?_⟩
    exact List.tail_eq_of_cons_eq (List.tail_eq_of_cons_eq hrest)
  · have hmethod' : e.suffix ≠ .Method := hsuffix ▸ hmethod
    have hnil : ∀ f : DescriptorBuilder, f.suffix ≠ .Method → f.closing = [] := by
      intro f hf
      unfold closing
      split
      · exact absurd ‹_› hf
      · rfl
    have hd' := hnil d hmethod
    have he' := hnil e hmethod'
    unfold closing at hd' he'
    rw [hd', he'] at hrest
    refine ⟨DescriptorBuilder.ext hname ?_ hsuffix, hrest⟩
    rw [hd.disambiguator_nil hmethod, he.disambiguator_nil hmethod']

theorem formatTo_ne_nil (h : d.WellFormed) : d.formatTo ≠ [] := by
  rw [formatTo_eq h]
  simp

/-- A list of descriptors is determined by what it is written as. -/
theorem flatMap_formatTo_inj {ds es : List DescriptorBuilder} (hds : ∀ d ∈ ds, d.WellFormed)
    (hes : ∀ e ∈ es, e.WellFormed) (h : ds.flatMap formatTo = es.flatMap formatTo) : ds = es := by
  induction ds generalizing es with
  | nil =>
      cases es with
      | nil => rfl
      | cons e es =>
          rw [List.flatMap_nil, List.flatMap_cons] at h
          have hnil := (List.append_eq_nil_iff.mp h.symm).1
          exact absurd hnil (formatTo_ne_nil (hes e List.mem_cons_self))
  | cons d ds ih =>
      cases es with
      | nil =>
          rw [List.flatMap_nil, List.flatMap_cons] at h
          have hnil := (List.append_eq_nil_iff.mp h).1
          exact absurd hnil (formatTo_ne_nil (hds d List.mem_cons_self))
      | cons e es =>
          rw [List.flatMap_cons, List.flatMap_cons] at h
          obtain ⟨rfl, hrest⟩ := formatTo_append_inj (hds d List.mem_cons_self)
            (hes e List.mem_cons_self) h
          rw [ih (fun d' hd' => hds d' (List.mem_cons_of_mem _ hd'))
            (fun e' he' => hes e' (List.mem_cons_of_mem _ he')) hrest]

end DescriptorBuilder

/-! ## Reading off the package -/

/-- What stands before the first occurrence of a character is determined. -/
theorem append_cons_inj {a b r s : Str} {c : Char} (ha : c ∉ a) (hb : c ∉ b)
    (h : a ++ c :: r = b ++ c :: s) : a = b ∧ r = s := by
  have htake : ∀ {t u : Str}, c ∉ t → (t ++ c :: u).takeWhile (· != c) = t := by
    intro t u ht
    rw [List.takeWhile_append_of_pos fun x hx => by
        simpa using fun heq : x = c => ht (heq ▸ hx),
      List.takeWhile_cons_of_neg (by simp), List.append_nil]
  have hab : a = b := by
    rw [← htake (u := r) ha, h, htake hb]
  subst hab
  exact ⟨rfl, List.tail_eq_of_cons_eq (List.append_cancel_left h)⟩

/-- A valid part of a package has neither of the two characters that end a part. -/
theorem notMem_of_checkValid {s : Str} (h : checkValid s = true) : ' ' ∉ s ∧ '$' ∉ s := by
  constructor
  · intro hmem
    exact absurd (List.all_eq_true.mp h ' ' hmem) (by decide)
  · intro hmem
    exact absurd (List.all_eq_true.mp h '$' hmem) (by decide)

theorem addSpaceEscaped_of_checkValid {s : Str} (h : checkValid s = true) :
    addSpaceEscaped s = s := by
  unfold addSpaceEscaped
  rw [if_neg (notMem_of_checkValid h).1]

/-- What is written for the name of a package; an empty name is a dot. -/
def writtenName (name : Str) : Str := if name = [] then ['.'] else name

theorem checkValid_writtenName {name : Str} (h : checkValid name = true) :
    checkValid (writtenName name) = true := by
  unfold writtenName
  split
  · decide
  · exact h

namespace SymbolBuilder

/-- Valid names and versions are written as they are. -/
theorem formatPackage_eq {packageId : PackageId} (hname : checkValid packageId.name = true)
    (hversion : checkValid packageId.version = true) (r : Str) :
    formatPackage packageId ++ r = "cxx . ".toList ++
      (writtenName packageId.name ++ ' ' :: (packageId.version ++ '$' :: ' ' :: r)) := by
  have hversion' : (if packageId.version ≠ [] then addSpaceEscaped packageId.version else []) =
      packageId.version := by
    rw [addSpaceEscaped_of_checkValid hversion]
    split
    · rfl
    · rename_i h
      rw [not_not.mp h]
  unfold formatPackage writtenName
  rw [hversion', addSpaceEscaped_of_checkValid hname]
  by_cases hnil : packageId.name = []
  · simp [hnil]
  · simp [hnil]

/-- The packages that the indexer writes: name and version are both missing, or both there and
valid. -/
structure ValidPackage (packageId : PackageId) : Prop where
  nil_iff : packageId.name = [] ↔ packageId.version = []
  name_valid : checkValid packageId.name = true
  version_valid : checkValid packageId.version = true

/-- **A package can be read off the front of a string.** -/
theorem formatPackage_append_inj {p q : PackageId} (hp : ValidPackage p) (hq : ValidPackage q)
    {r s : Str} (h : formatPackage p ++ r = formatPackage q ++ s) : p = q ∧ r = s := by
  rw [formatPackage_eq hp.name_valid hp.version_valid,
    formatPackage_eq hq.name_valid hq.version_valid] at h
  have hpname := notMem_of_checkValid (checkValid_writtenName hp.name_valid)
  have hqname := notMem_of_checkValid (checkValid_writtenName hq.name_valid)
  obtain ⟨hname, hrest⟩ := append_cons_inj hpname.1 hqname.1 (List.append_cancel_left h)
  obtain ⟨hversion, hrest⟩ := append_cons_inj (notMem_of_checkValid hp.version_valid).2
    (notMem_of_checkValid hq.version_valid).2 hrest
  refine ⟨?_, List.tail_eq_of_cons_eq hrest⟩
  -- a missing name is written like the name `.`, but then the version is missing as well
  have hnil : p.name = [] ↔ q.name = [] := by
    rw [hp.nil_iff, hq.nil_iff, hversion]
  unfold writtenName at hname
  apply PackageId.ext
  · by_cases hpnil : p.name = []
    · rw [hpnil, hnil.mp hpnil]
    · rw [if_neg hpnil, if_neg (mt hnil.mpr hpnil)] at hname
      exact hname
  · exact hversion

/-- **Symbol strings are unambiguous.**  Names of descriptors are any strings. -/
theorem formatTo_inj {symbol other : SymbolBuilder} (hpackage : ValidPackage symbol.packageId)
    (hpackage' : ValidPackage other.packageId)
    (hdescriptors : ∀ d ∈ symbol.descriptors, d.WellFormed)
    (hdescriptors' : ∀ d ∈ other.descriptors, d.WellFormed)
    (h : symbol.formatTo = other.formatTo) : symbol = other := by
  obtain ⟨hid, hrest⟩ := formatPackage_append_inj hpackage hpackage' h
  exact SymbolBuilder.ext hid
    (DescriptorBuilder.flatMap_formatTo_inj hdescriptors hdescriptors' hrest)

/-- The method `` a`b() `` of the package `p` at version `1`. -/
def sampleMethod : SymbolBuilder where
  packageId := ⟨['p'], ['1']⟩
  descriptors := [⟨['a', '`', 'b'], ['$', ' '], .Method⟩]

theorem formatTo_inj_sampleMethod :
    sampleMethod.formatTo = "cxx . p 1$ `a``b`(`$ `).".toList ∧
      sampleMethod = ⟨⟨['p'], ['1']⟩, [⟨['a', '`', 'b'], ['$', ' '], .Method⟩]⟩ := by
  have hpackage : ValidPackage sampleMethod.packageId := ⟨by decide, by decide, by decide⟩
  have hdescriptors : ∀ d ∈ sampleMethod.descriptors, d.WellFormed := by
    intro d hd
    rw [List.mem_singleton.mp hd]
    exact ⟨by decide, by decide, by decide⟩
  exact ⟨by decide, formatTo_inj hpackage hpackage hdescriptors hdescriptors rfl⟩

/-! ## The package agnostic suffix -/

/-- Formatting the descriptors one by one. -/
theorem foldl_formatContextual (descriptors : List DescriptorBuilder) (contextSymbol : Str) :
    descriptors.foldl formatContextual contextSymbol =
      contextSymbol ++ descriptors.flatMap DescriptorBuilder.formatTo := by
  induction descriptors generalizing contextSymbol with
  | nil => simp
  | cons d descriptors ih =>
      rw [List.foldl_cons, ih, List.flatMap_cons, formatContextual, List.append_assoc]

end SymbolBuilder

/-- Local symbols have no suffix. -/
theorem getPackageAgnosticSuffix_formatLocal (counter : Nat) :
    getPackageAgnosticSuffix (formatLocal counter) = none := by
  have hnot : '$' ∉ formatLocal counter := by
    intro hmem
    rcases List.mem_append.mp hmem with h | h
    · exact absurd h (by decide)
    · have hdigit := Nat.isDigit_of_mem_toDigits (b := 10) (by decide) (by decide) h
      exact absurd hdigit (by decide)
  have hix : (formatLocal counter).findIdx (· == '$') = (formatLocal counter).length := by
    rw [List.findIdx_eq_length]
    intro c hc
    simpa using fun heq : c = '$' => hnot (heq ▸ hc)
  unfold getPackageAgnosticSuffix
  exact if_pos (Or.inl hix)

namespace SymbolBuilder

/-- The suffix of a symbol is what its descriptors are written as. -/
theorem getPackageAgnosticSuffix_formatTo {packageId : PackageId}
    (hname : checkValid packageId.name = true) (hversion : checkValid packageId.version = true)
    (descriptors : List DescriptorBuilder) :
    getPackageAgnosticSuffix (formatTo ⟨packageId, descriptors⟩) =
      some (descriptors.flatMap DescriptorBuilder.formatTo) := by
  have hbefore : '$' ∉ "cxx . ".toList ++ (writtenName packageId.name ++ ' ' ::
      packageId.version) := by
    simp only [List.mem_append, List.mem_cons, not_or]
    exact ⟨by decide, (notMem_of_checkValid (checkValid_writtenName hname)).2, by decide,
      (notMem_of_checkValid hversion).2⟩
  have hsplit := formatPackage_eq hname hversion
    (descriptors.flatMap DescriptorBuilder.formatTo)
  rw [formatTo, hsplit]
  simpa using getPackageAgnosticSuffix_append hbefore
    (descriptors.flatMap DescriptorBuilder.formatTo)

/-- **Package agnostic suffixes are stable.**  Formatting at once and one by one agree; the
suffix of a symbol is what its descriptors are written as, whatever its package; a suffix
survives being made up into a name; and local symbols have none. -/
theorem packageAgnosticSuffix_stable {packageId : PackageId}
    (hname : packageId.name = [] ∨ checkValid packageId.name = true)
    (hversion : packageId.version = [] ∨ checkValid packageId.version = true)
    (descriptors : List DescriptorBuilder) :
    formatTo ⟨packageId, descriptors⟩ =
        descriptors.foldl formatContextual (formatTo ⟨packageId, []⟩) ∧
      getPackageAgnosticSuffix (formatTo ⟨packageId, descriptors⟩) =
        some (descriptors.flatMap DescriptorBuilder.formatTo) ∧
      (∀ other : PackageId, (other.name = [] ∨ checkValid other.name = true) →
        (other.version = [] ∨ checkValid other.version = true) →
        getPackageAgnosticSuffix (formatTo ⟨other, descriptors⟩) =
          getPackageAgnosticSuffix (formatTo ⟨packageId, descriptors⟩)) ∧
      (∀ suffix : Str, getPackageAgnosticSuffix (addFakePrefix suffix) = some suffix) ∧
      ∀ counter : Nat, getPackageAgnosticSuffix (formatLocal counter) = none := by
  have hvalid : ∀ {s : Str}, s = [] ∨ checkValid s = true → checkValid s = true := by
    rintro s (rfl | h)
    · rfl
    · exact h
  have hsuffix := getPackageAgnosticSuffix_formatTo (hvalid hname) (hvalid hversion) descriptors
  refine ⟨?_, hsuffix, ?_, getPackageAgnosticSuffix_addFakePrefix,
    getPackageAgnosticSuffix_formatLocal⟩
  · rw [foldl_formatContextual]
    simp [formatTo]
  · intro other hname' hversion'
    rw [hsuffix, getPackageAgnosticSuffix_formatTo (hvalid hname') (hvalid hversion')]

theorem packageAgnosticSuffix_stable_sampleMethod :
    getPackageAgnosticSuffix sampleMethod.formatTo =
      some (sampleMethod.descriptors.flatMap DescriptorBuilder.formatTo) :=
  (packageAgnosticSuffix_stable (Or.inr (by decide)) (Or.inr (by decide))
    sampleMethod.descriptors).2.1

end SymbolBuilder

end ScipClang
