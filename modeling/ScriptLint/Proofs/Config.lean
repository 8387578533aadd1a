import ScriptLint.Config
import ScriptLint.Proofs.Lint.DirectiveText
import ScriptLint.Proofs.Log

/-!
# Taking over a settings file

A settings file is taken over as a whole or refused as a whole.  A value means something
for the setting of its key, or it means nothing.  The file is refused exactly if a known key
has a value that means nothing (`Config.Refused`).  Otherwise each setting is what the value
of its key means, or stays as it is where the key is unset, and nothing else changes but the
path of the file (`Config.Applied`).

All keys are read in the same way (`Config.Reads`), and only what is found under them counts.
So unknown keys have no effect.  A file that is taken over a second time gives what it gave
before, and well-formed settings stay so, for all that a value can mean is well-formed.
-/

namespace ScriptLint

/-! ## Lists of texts -/

namespace Json

theorem string?_eq_some {v : Json} {x : String} : v.string? = some x ↔ v = .string x := by
  cases v <;> simp [string?]

theorem mapM_string?_eq_some {items : List Json} {xs : List String} :
    items.mapM string? = some xs ↔ items = xs.map .string := by
  induction items generalizing xs with
  | nil => cases xs <;> simp
  | cons item items ih =>
      simp only [List.mapM_cons, Option.bind_eq_bind, Option.bind_eq_some_iff, Option.pure_def,
        Option.some.injEq, string?_eq_some, ih]
      constructor
      · rintro ⟨x, rfl, xs, rfl, rfl⟩
        rfl
      · intro h
        obtain ⟨x, xs, rfl, hitem, hitems⟩ := List.map_eq_cons_iff.1 h.symm
        exact ⟨x, hitem.symm, xs, hitems.symm, rfl⟩

/-- Only a list of texts is read as strings. -/
theorem strings?_eq_some {v : Json} {xs : List String} :
    v.strings? = some xs ↔ v = ofStrings xs := by
  cases v with
  | array items => simp [strings?, items?, ofStrings, mapM_string?_eq_some]
  | _ => simp [strings?, items?, ofStrings]

end Json

namespace Config

variable {α : Type} {means : Json → α → Prop} {settings table : Settings} {key : String}
  {v : Json} {fault : ConfigFault} {path : Path} {c c' : Config}

/-! ## Keys -/

/-- A key that is absent or null. -/
def Unset (settings : Settings) (key : String) : Prop :=
  settings.lookup key = none ∨ settings.lookup key = some .null

/-- A key with a value that is not null. -/
def Has (settings : Settings) (key : String) (v : Json) : Prop :=
  settings.lookup key = some v ∧ v ≠ .null

theorem value?_eq_none : value? settings key = none ↔ Unset settings key := by
  unfold value? Unset
  split <;> simp_all

theorem value?_eq_some : value? settings key = some v ↔ Has settings key v := by
  unfold value? Has
  split
  · simp_all
  · next hnull =>
      refine ⟨fun h => ⟨h, ?_⟩, And.left⟩
      rintro rfl
      exact hnull h

/-- What a key gives if its values have a meaning: nothing if the key is unset, and
otherwise what its value means. -/
inductive Gives (means : Json → α → Prop) (settings : Settings) (key : String) :
    Option α → Prop where
  | unset : Unset settings key → Gives means settings key none
  | value {v : Json} {x : α} : Has settings key v → means v x → Gives means settings key (some x)

/-- A key with a value that means nothing. -/
def Bad (means : Json → α → Prop) (settings : Settings) (key : String) : Prop :=
  ∃ v, Has settings key v ∧ ∀ x, ¬ means v x

theorem gives_or_bad (means : Json → α → Prop) (settings : Settings) (key : String) :
    (∃ given?, Gives means settings key given?) ∨ Bad means settings key := by
  cases hv : value? settings key with
  | none => exact .inl ⟨none, .unset (value?_eq_none.1 hv)⟩
  | some v =>
      have hhas := value?_eq_some.1 hv
      by_cases h : ∃ x, means v x
      · obtain ⟨x, hx⟩ := h
        exact .inl ⟨some x, .value hhas hx⟩
      · exact .inr ⟨v, hhas, not_exists.1 h⟩

theorem Gives.not_bad {given? : Option α} (h : Gives means settings key given?) :
    ¬ Bad means settings key := by
  rintro ⟨v, hv, hbad⟩
  rw [← value?_eq_some] at hv
  cases h with
  | unset hunset =>
      rw [value?_eq_none.2 hunset] at hv
      cases hv
  | value hhas hmeans =>
      rw [value?_eq_some.2 hhas] at hv
      cases hv
      exact hbad _ hmeans

/-- A reader of a key: it comes to what the key gives, and to a fault if the value of the
key means nothing. -/
structure Reads (read : Except ConfigFault (Option α)) (means : Json → α → Prop)
    (settings : Settings) (key : String) (fault : ConfigFault) : Prop where
  ok : ∀ {given?}, Gives means settings key given? → read = .ok given?
  error : Bad means settings key → read = .error fault

namespace Reads

variable {read : Except ConfigFault (Option α)} {given? : Option α}

theorem gives (h : Reads read means settings key fault) (hread : read = .ok given?) :
    Gives means settings key given? := by
  rcases gives_or_bad means settings key with ⟨given'?, hgives⟩ | hbad
  · rw [h.ok hgives] at hread
    cases hread
    exact hgives
  · rw [h.error hbad] at hread
    cases hread

theorem bad (h : Reads read means settings key fault) {f : ConfigFault}
    (hread : read = .error f) : f = fault ∧ Bad means settings key := by
  rcases gives_or_bad means settings key with ⟨given'?, hgives⟩ | hbad
  · rw [h.ok hgives] at hread
    cases hread
  · rw [h.error hbad] at hread
    cases hread
    exact ⟨rfl, hbad⟩

end Reads

/-! ## Meanings -/

/-- A list of strings means these strings. -/
def MeansStrings (v : Json) (xs : List String) : Prop :=
  v = .ofStrings xs

/-- A list of strings means these suffixes, each with its dot. -/
def MeansSuffixes (v : Json) (xs : List String) : Prop :=
  ∃ ys, MeansStrings v ys ∧ xs = ys.map dotted

/-- A string that is not blank means the word that is left without the blanks around. -/
def MeansWord (v : Json) (word : String) : Prop :=
  ∃ text, v = .string text ∧ (∃ ch ∈ text.toList, Text.isBlank ch = false) ∧
    word = Text.stripped text

/-- An integer from 1 on means this number of jobs. -/
def MeansJobs (v : Json) (n : Int) : Prop :=
  v = .integer n ∧ 1 ≤ n

theorem reads_strings (settings : Settings) (key : String) :
    Reads (strings? settings key) MeansStrings settings key (.notStrings key) where
  ok h := by
    cases h with
    | unset hunset => rw [strings?, value?_eq_none.2 hunset]
    | value hhas hmeans =>
        simp only [strings?, value?_eq_some.2 hhas, Json.strings?_eq_some.2 hmeans]
  error h := by
    obtain ⟨v, hhas, hbad⟩ := h
    have hnone : v.strings? = none :=
      Option.eq_none_iff_forall_ne_some.2 fun xs h => hbad xs (Json.strings?_eq_some.1 h)
    simp only [strings?, value?_eq_some.2 hhas, hnone]

theorem reads_directive (settings : Settings) :
    Reads (directive? settings) MeansWord settings "ignore-directive" .badDirective where
  ok h := by
    cases h with
    | unset hunset => rw [directive?, value?_eq_none.2 hunset]
    | value hhas hmeans =>
        obtain ⟨text, rfl, ⟨ch, hch, hsolid⟩, rfl⟩ := hmeans
        have hword : Text.stripped text ≠ "" := fun hempty => by
          rw [Text.stripped_eq_empty.1 hempty ch hch] at hsolid
          cases hsolid
        simp only [directive?, value?_eq_some.2 hhas, if_neg hword]
  error h := by
    obtain ⟨v, hhas, hbad⟩ := h
    unfold directive?
    rw [value?_eq_some.2 hhas]
    cases v with
    | string text =>
        refine if_pos (Text.stripped_eq_empty.2 fun ch hch => ?_)
        by_contra hsolid
        exact hbad _ ⟨text, rfl, ⟨ch, hch, Bool.eq_false_iff.2 hsolid⟩, rfl⟩
    | _ => rfl

theorem reads_jobs (settings : Settings) :
    Reads (jobs? settings) MeansJobs settings "jobs" .badJobs where
  ok h := by
    cases h with
    | unset hunset => rw [jobs?, value?_eq_none.2 hunset]
    | value hhas hmeans =>
        obtain ⟨rfl, hpos⟩ := hmeans
        simp only [jobs?, value?_eq_some.2 hhas, if_pos hpos]
  error h := by
    obtain ⟨v, hhas, hbad⟩ := h
    unfold jobs?
    rw [value?_eq_some.2 hhas]
    cases v with
    | integer n => exact if_neg fun hpos => hbad n ⟨rfl, hpos⟩
    | _ => rfl

/-- A list of strings gives suffixes as it gives strings. -/
theorem gives_suffixes {given? : Option (List String)} :
    Gives MeansSuffixes settings key given? ↔
      ∃ strings?, Gives MeansStrings settings key strings? ∧
        given? = strings?.map (·.map dotted) := by
  constructor
  · intro h
    cases h with
    | unset hunset => exact ⟨none, .unset hunset, rfl⟩
    | value hhas hmeans =>
        obtain ⟨ys, hys, rfl⟩ := hmeans
        exact ⟨some ys, .value hhas hys, rfl⟩
  · rintro ⟨strings?, h, rfl⟩
    cases h with
    | unset hunset => exact .unset hunset
    | value hhas hmeans => exact .value hhas ⟨_, hmeans, rfl⟩

/-! ## The table of rule settings -/

/-- The table of rule settings, empty if it is absent. -/
inductive RuleTable (settings : Settings) : Settings → Prop where
  | absent : settings.lookup "rules" = none → RuleTable settings []
  | table {fields : Settings} :
      settings.lookup "rules" = some (.object fields) → RuleTable settings fields

/-- The rule settings are there and no table. -/
def NoRuleTable (settings : Settings) : Prop :=
  ∃ v, settings.lookup "rules" = some v ∧ ∀ fields, v ≠ .object fields

theorem rules_eq_ok : rules settings = .ok table ↔ RuleTable settings table := by
  unfold rules
  constructor
  · intro h
    split at h
    · next hnone =>
        cases h
        exact .absent hnone
    · next hfields =>
        cases h
        exact .table hfields
    · cases h
  · intro h
    cases h with
    | absent hnone => rw [hnone]
    | table hfields => rw [hfields]

theorem rules_eq_error :
    rules settings = .error fault ↔ fault = .badRules ∧ NoRuleTable settings := by
  unfold rules NoRuleTable
  split
  · next hnone => simp [hnone]
  · next hfields => simp [hfields]
  · next v hfields hv =>
      constructor
      · intro h
        cases h
        exact ⟨rfl, v, hv, hfields⟩
      · rintro ⟨rfl, -⟩
        rfl

/-! ## Files that are taken over -/

/-- A setting has the value that a key gives, and stays as it is if the key gives none. -/
def Takes (means : Json → α → Prop) (settings : Settings) (key : String) (old new : α) : Prop :=
  ∃ given?, Gives means settings key given? ∧ new = given?.getD old

/-- A second time a key changes nothing. -/
theorem Takes.again {old new : α} (h : Takes means settings key old new) :
    Takes means settings key new new := by
  obtain ⟨given?, hgives, rfl⟩ := h
  exact ⟨given?, hgives, by cases given? <;> rfl⟩

/-- What holds of a setting and of all that its values mean still holds. -/
theorem Takes.preserves {P : α → Prop} {old new : α} (h : Takes means settings key old new)
    (hold : P old) (hmeans : ∀ v x, means v x → P x) : P new := by
  obtain ⟨given?, hgives, rfl⟩ := h
  cases hgives with
  | unset => exact hold
  | value hhas hx => exact hmeans _ _ hx

/-- The rule selection has the values that the table of rule settings gives. -/
structure Selects (table : Settings) (old new : Selection) : Prop where
  tags : Takes MeansStrings table "tags" old.tags new.tags
  included : Takes MeansStrings table "include" old.included new.included
  excluded : Takes MeansStrings table "exclude" old.excluded new.excluded

/-- Settings with what a settings file at a path gives.  Nothing else has changed. -/
structure Applied (c : Config) (settings : Settings) (path : Path) (c' : Config) : Prop where
  extensions : Takes MeansSuffixes settings "extensions" c.extensions c'.extensions
  excludedDirs : Takes MeansStrings settings "exclude-dirs" c.excludedDirs c'.excludedDirs
  word : Takes MeansWord settings "ignore-directive" c.word c'.word
  jobs : Takes MeansJobs settings "jobs" c.jobs c'.jobs
  selection : ∃ table, RuleTable settings table ∧ Selects table c.selection c'.selection
  root : c'.root = c.root
  jsonOutput : c'.jsonOutput = c.jsonOutput
  configPath? : c'.configPath? = some path

theorem Applied.again (h : Applied c settings path c') : Applied c' settings path c' where
  extensions := h.extensions.again
  excludedDirs := h.excludedDirs.again
  word := h.word.again
  jobs := h.jobs.again
  selection := by
    obtain ⟨table, htable, hselects⟩ := h.selection
    exact ⟨table, htable, hselects.tags.again, hselects.included.again, hselects.excluded.again⟩
  root := rfl
  jsonOutput := rfl
  configPath? := h.configPath?

/-- What comes of a settings file that is not refused. -/
theorem apply_eq_ok : c.apply settings path = .ok c' ↔ Applied c settings path c' := by
  constructor
  · intro h
    obtain ⟨extensions?, hextensions, h⟩ := exists_of_bind_eq_ok h
    obtain ⟨excludedDirs?, hexcludedDirs, h⟩ := exists_of_bind_eq_ok h
    obtain ⟨word?, hword, h⟩ := exists_of_bind_eq_ok h
    obtain ⟨jobs?, hjobs, h⟩ := exists_of_bind_eq_ok h
    obtain ⟨table, htable, h⟩ := exists_of_bind_eq_ok h
    obtain ⟨tags?, htags, h⟩ := exists_of_bind_eq_ok h
    obtain ⟨included?, hincluded, h⟩ := exists_of_bind_eq_ok h
    obtain ⟨excluded?, hexcluded, h⟩ := exists_of_bind_eq_ok h
    cases h
    exact {
      extensions := ⟨_, gives_suffixes.2 ⟨_, (reads_strings ..).gives hextensions, rfl⟩, rfl⟩
      excludedDirs := ⟨_, (reads_strings ..).gives hexcludedDirs, rfl⟩
      word := ⟨_, (reads_directive ..).gives hword, rfl⟩
      jobs := ⟨_, (reads_jobs ..).gives hjobs, rfl⟩
      selection := ⟨table, rules_eq_ok.1 htable,
        ⟨_, (reads_strings ..).gives htags, rfl⟩,
        ⟨_, (reads_strings ..).gives hincluded, rfl⟩,
        ⟨_, (reads_strings ..).gives hexcluded, rfl⟩⟩
      root := rfl
      jsonOutput := rfl
      configPath? := rfl }
  · intro h
    obtain ⟨suffixes?, hsuffixes, hextensions⟩ := h.extensions
    obtain ⟨extensions?, hgives, rfl⟩ := gives_suffixes.1 hsuffixes
    obtain ⟨excludedDirs?, hdirs, hexcludedDirs⟩ := h.excludedDirs
    obtain ⟨word?, hgivesWord, hword⟩ := h.word
    obtain ⟨jobs?, hgivesJobs, hjobs⟩ := h.jobs
    obtain ⟨table, htable, ⟨tags?, hgivesTags, htags⟩, ⟨included?, hinclude, hincluded⟩,
      ⟨excluded?, hexclude, hexcluded⟩⟩ := h.selection
    obtain ⟨root', ⟨tags', included', excluded'⟩, extensions', excludedDirs', word', json', jobs',
      configPath?'⟩ := c'
    obtain rfl : root' = c.root := h.root
    obtain rfl : json' = c.jsonOutput := h.jsonOutput
    obtain rfl : configPath?' = some path := h.configPath?
    subst hextensions hexcludedDirs hword hjobs htags hincluded hexcluded
    rw [apply, (reads_strings ..).ok hgives, (reads_strings ..).ok hdirs,
      (reads_directive ..).ok hgivesWord, (reads_jobs ..).ok hgivesJobs, rules_eq_ok.2 htable]
    simp only [bind, Except.bind]
    rw [(reads_strings ..).ok hgivesTags, (reads_strings ..).ok hinclude,
      (reads_strings ..).ok hexclude]
    rfl

/-! ## Files that are refused -/

/-- What is wrong with a settings file: a known key has a value that means nothing, also
in the table of rule settings, or the rule settings are no table. -/
inductive Refused (settings : Settings) : ConfigFault → Prop where
  | strings {key : String} : key ∈ ["extensions", "exclude-dirs"] →
      Bad MeansStrings settings key → Refused settings (.notStrings key)
  | word : Bad MeansWord settings "ignore-directive" → Refused settings .badDirective
  | jobs : Bad MeansJobs settings "jobs" → Refused settings .badJobs
  | rules : NoRuleTable settings → Refused settings .badRules
  | selection {table : Settings} {key : String} : RuleTable settings table →
      key ∈ ["tags", "include", "exclude"] → Bad MeansStrings table key →
      Refused settings (.notStrings key)

/-- The fault of a file that is refused is one that it has. -/
theorem refused_of_apply (h : c.apply settings path = .error fault) : Refused settings fault := by
  rcases bind_eq_error_iff.1 h with h | ⟨extensions?, -, h⟩
  · obtain ⟨rfl, hbad⟩ := (reads_strings ..).bad h
    exact .strings (by decide) hbad
  rcases bind_eq_error_iff.1 h with h | ⟨excludedDirs?, -, h⟩
  · obtain ⟨rfl, hbad⟩ := (reads_strings ..).bad h
    exact .strings (by decide) hbad
  rcases bind_eq_error_iff.1 h with h | ⟨word?, -, h⟩
  · obtain ⟨rfl, hbad⟩ := (reads_directive ..).bad h
    exact .word hbad
  rcases bind_eq_error_iff.1 h with h | ⟨jobs?, -, h⟩
  · obtain ⟨rfl, hbad⟩ := (reads_jobs ..).bad h
    exact .jobs hbad
  rcases bind_eq_error_iff.1 h with h | ⟨table, htable, h⟩
  · obtain ⟨rfl, hbad⟩ := rules_eq_error.1 h
    exact .rules hbad
  have hselection {key : String} (hkey : key ∈ ["tags", "include", "exclude"])
      (h : strings? table key = .error fault) : Refused settings fault := by
    obtain ⟨rfl, hbad⟩ := (reads_strings ..).bad h
    exact .selection (rules_eq_ok.1 htable) hkey hbad
  rcases bind_eq_error_iff.1 h with h | ⟨tags?, -, h⟩
  · exact hselection (by decide) h
  rcases bind_eq_error_iff.1 h with h | ⟨included?, -, h⟩
  · exact hselection (by decide) h
  rcases bind_eq_error_iff.1 h with h | ⟨excluded?, -, h⟩
  · exact hselection (by decide) h
  · cases h

/-- A file with a fault is not taken over. -/
theorem Applied.not_refused (h : Applied c settings path c') : ¬ Refused settings fault := by
  obtain ⟨extensions?, hextensions, -⟩ := h.extensions
  obtain ⟨strings?, hstrings, -⟩ := gives_suffixes.1 hextensions
  obtain ⟨excludedDirs?, hexcludedDirs, -⟩ := h.excludedDirs
  obtain ⟨word?, hword, -⟩ := h.word
  obtain ⟨jobs?, hjobs, -⟩ := h.jobs
  obtain ⟨table, htable, ⟨tags?, htags, -⟩, ⟨included?, hincluded, -⟩, excluded?, hexcluded, -⟩ :=
    h.selection
  have hrules := rules_eq_ok.2 htable
  intro hrefused
  cases hrefused with
  | strings hkey hbad =>
      have hgood : ∀ key ∈ ["extensions", "exclude-dirs"], ¬ Bad MeansStrings settings key := by
        simpa using ⟨hstrings.not_bad, hexcludedDirs.not_bad⟩
      exact hgood _ hkey hbad
  | word hbad => exact hword.not_bad hbad
  | jobs hbad => exact hjobs.not_bad hbad
  | rules hbad =>
      rw [rules_eq_error.2 ⟨rfl, hbad⟩] at hrules
      cases hrules
  | selection htable' hkey hbad =>
      rw [rules_eq_ok.2 htable'] at hrules
      cases hrules
      have hgood : ∀ key ∈ ["tags", "include", "exclude"], ¬ Bad MeansStrings table key := by
        simpa using ⟨htags.not_bad, hincluded.not_bad, hexcluded.not_bad⟩
      exact hgood _ hkey hbad

/-- A file is refused exactly if something is wrong with it. -/
theorem exists_apply_eq_error (c : Config) (settings : Settings) (path : Path) :
    (∃ fault, c.apply settings path = .error fault) ↔ ∃ fault, Refused settings fault := by
  constructor
  · rintro ⟨fault, h⟩
    exact ⟨fault, refused_of_apply h⟩
  · rintro ⟨fault, hrefused⟩
    cases happly : c.apply settings path with
    | error fault' => exact ⟨fault', rfl⟩
    | ok c' => exact absurd hrefused (apply_eq_ok.1 happly).not_refused

/-! ## Unknown keys -/

/-- Two tables have the same values under some keys. -/
def SameUnder (keys : List String) (a b : Settings) : Prop :=
  ∀ key ∈ keys, a.lookup key = b.lookup key

/-- Two settings files differ in unknown keys only, also in their tables of rule settings. -/
structure Agrees (a b : Settings) : Prop where
  known : SameUnder ["extensions", "exclude-dirs", "ignore-directive", "jobs"] a b
  rules : a.lookup "rules" = b.lookup "rules" ∨
    ∃ s t, a.lookup "rules" = some (.object s) ∧ b.lookup "rules" = some (.object t) ∧
      SameUnder ["tags", "include", "exclude"] s t

theorem SameUnder.strings?_congr {keys : List String} {a b : Settings} (h : SameUnder keys a b)
    (key : String) (hkey : key ∈ keys) : strings? a key = strings? b key := by
  rw [strings?, strings?, value?, value?, h key hkey]

/-- What is found under unknown keys does not matter. -/
theorem apply_congr {a b : Settings} (h : Agrees a b) (c : Config) (path : Path) :
    c.apply a path = c.apply b path := by
  have hword : directive? a = directive? b := by
    rw [directive?, directive?, value?, value?, h.known "ignore-directive" (by decide)]
  have hjobs : jobs? a = jobs? b := by
    rw [jobs?, jobs?, value?, value?, h.known "jobs" (by decide)]
  rw [apply, apply, h.known.strings?_congr "extensions" (by decide),
    h.known.strings?_congr "exclude-dirs" (by decide), hword, hjobs]
  rcases h.rules with hrules | ⟨s, t, hs, ht, hsame⟩
  · rw [rules, rules, hrules]
  · rw [rules_eq_ok.2 (.table hs), rules_eq_ok.2 (.table ht)]
    simp only [bind, Except.bind]
    rw [hsame.strings?_congr "tags" (by decide), hsame.strings?_congr "include" (by decide),
      hsame.strings?_congr "exclude" (by decide)]

/-! ## Well-formed settings -/

/-- Settings as the defaults are, and as files make them. -/
structure WellFormed (c : Config) : Prop where
  /-- There is a job. -/
  jobs : 1 ≤ c.jobs
  /-- Suffixes have their dots. -/
  extensions : ∀ e ∈ c.extensions, e.toList.head? = some '.'
  /-- Directives can start with the word. -/
  word : Directive.IsWord c.word.toList

theorem head?_dotted (e : String) : (dotted e).toList.head? = some '.' := by
  unfold dotted
  split
  · assumption
  · simp

theorem MeansWord.isWord {word : String} (h : MeansWord v word) : Directive.IsWord word.toList := by
  obtain ⟨text, -, ⟨ch, hch, hsolid⟩, rfl⟩ := h
  rw [Text.stripped, String.toList_ofList]
  refine Directive.IsWord.of_strip fun hnil => ?_
  rw [Text.strip_eq_nil.1 hnil ch hch] at hsolid
  cases hsolid

/-- The defaults are well-formed. -/
theorem wellFormed_default (root : Path) : WellFormed { root := root } := by
  have hextensions : ∀ e ∈ Dialect.suffixes.map (·.1), e.toList.head? = some '.' := by decide
  have hword : Directive.IsWord "workerlint-ignore".toList := by decide
  exact ⟨Int.le_refl 1, hextensions, hword⟩

theorem Applied.wellFormed (h : Applied c settings path c') (hc : c.WellFormed) :
    c'.WellFormed where
  jobs := h.jobs.preserves hc.jobs fun _ _ hmeans => hmeans.2
  extensions := by
    refine h.extensions.preserves (P := fun extensions =>
      ∀ e ∈ extensions, e.toList.head? = some '.') hc.extensions ?_
    rintro v _ ⟨ys, -, rfl⟩ e he
    obtain ⟨y, -, rfl⟩ := List.mem_map.1 he
    exact head?_dotted y
  word := h.word.preserves (P := fun word => Directive.IsWord word.toList) hc.word
    fun _ _ => MeansWord.isWord

/-- **All or nothing.**  A settings file is refused exactly if something is wrong with it,
and the fault that it is refused for is one that it has.  Otherwise it is taken over: the
settings of its keys are what their values mean, and all else is as before but the path of
the file.  Unknown keys do not matter, neither in the file nor in its table of rule
settings.  A second time the file changes nothing.  Well-formed settings stay well-formed. -/
theorem apply_exact (c : Config) (settings : Settings) (path : Path) :
    ((∃ fault, c.apply settings path = .error fault) ↔ ∃ fault, Refused settings fault) ∧
      (∀ fault, c.apply settings path = .error fault → Refused settings fault) ∧
      (∀ c', c.apply settings path = .ok c' ↔ Applied c settings path c') ∧
      (∀ other, Agrees settings other → c.apply settings path = c.apply other path) ∧
      ∀ c', c.apply settings path = .ok c' →
        c'.apply settings path = .ok c' ∧ (c.WellFormed → c'.WellFormed) := by
  refine ⟨exists_apply_eq_error c settings path, fun _ => refused_of_apply,
    fun _ => apply_eq_ok, fun _ h => apply_congr h c path, fun c' h => ?_⟩
  have happlied := apply_eq_ok.1 h
  exact ⟨apply_eq_ok.2 happlied.again, happlied.wellFormed⟩

/-- A settings file with some of the keys, one of them null, and with keys that are not known. -/
def someSettings : Settings :=
  [("colour", .bool true), ("extensions", .ofStrings ["js", ".d.ts"]), ("jobs", .null),
    ("ignore-directive", .string "\t skip\u3000"),
    ("rules", .object [("tags", .array []), ("speed", .decimal "1.5")])]

/-- The same without the keys that are not known. -/
def knownSettings : Settings :=
  [("extensions", .ofStrings ["js", ".d.ts"]), ("jobs", .null),
    ("ignore-directive", .string "\t skip\u3000"), ("rules", .object [("tags", .array [])])]

theorem apply_someSettings :
    let path := Path.ofString "workerlint.toml"
    let base : Config := { root := Path.ofString "src", jobs := 4 }
    let given : Config := { base with
      extensions := [".js", ".d.ts"]
      word := "skip"
      selection := { base.selection with tags := [] }
      configPath? := some path }
    Agrees someSettings knownSettings ∧ base.WellFormed ∧
      base.apply someSettings path = .ok given ∧ base.apply knownSettings path = .ok given ∧
      given.apply someSettings path = .ok given ∧ given.WellFormed := by
  intro path base given
  have hagrees : Agrees someSettings knownSettings := by
    refine ⟨?_, .inr ⟨_, _, rfl, rfl, ?_⟩⟩
    · simpa only [SameUnder, List.forall_mem_cons] using
        ⟨rfl, rfl, rfl, rfl, List.forall_mem_nil _⟩
    · simpa only [SameUnder, List.forall_mem_cons] using ⟨rfl, rfl, rfl, List.forall_mem_nil _⟩
  have hbase : base.WellFormed := { wellFormed_default base.root with jobs := by decide }
  have happly : base.apply someSettings path = .ok given := rfl
  obtain ⟨-, -, -, hunknown, htwice⟩ := apply_exact base someSettings path
  obtain ⟨hagain, hgiven⟩ := htwice given happly
  exact ⟨hagrees, hbase, happly, (hunknown _ hagrees).symm.trans happly, hagain, hgiven hbase⟩

end Config

end ScriptLint
