import DeclLint.Configuration.Override
import Mathlib.Logic.Basic

/-!
# The rules that the settings of a run select

Settings of a run enable rules one after the other and then disable rules one after
the other.  What the edited lists hold does not depend on the order: a list is told by
what it held before and by the names that were enabled and disabled.

The only rules of a file are the exception.  They restrict a run as long as one of them,
or of the rules that are enabled with them, is left when the disabled ones are taken
away.  When none is left, there are no only rules any more, and a run selects as if the
file had never named any: so disabling a rule can select another one.

* `Enables`, `Disables` — what the edits make of a configuration, list by list;
* `selects_override_iff` — the rules that are selected, in terms of the file and the
  settings;
* `resolve_override` — the rules that run, if the only rules do not all go;
* `resolve_override_withDisable` — what disabling more rules does to the rules that run.
-/

namespace DeclLint

namespace Configuration

section Edits

variable {c d e : Configuration} {id : String} {ids : List String}

/-- What enabling some rules makes of a configuration. -/
structure Enables (c : Configuration) (ids : List String) (d : Configuration) : Prop where
  mem_disabledRules : ∀ id, id ∈ d.disabledRules ↔ id ∈ c.disabledRules ∧ id ∉ ids
  mem_optInRules : ∀ id, id ∈ d.optInRules ↔ id ∈ c.optInRules ∨ id ∈ ids
  mem_onlyRules : ∀ id, id ∈ d.onlyRules ↔ id ∈ c.onlyRules ∨ c.onlyRules ≠ [] ∧ id ∈ ids
  rules_eq : d.rules = c.rules

/-- What disabling some rules makes of a configuration. -/
structure Disables (c : Configuration) (ids : List String) (d : Configuration) : Prop where
  mem_disabledRules : ∀ id, id ∈ d.disabledRules ↔ id ∈ c.disabledRules ∨ id ∈ ids
  mem_optInRules : ∀ id, id ∈ d.optInRules ↔ id ∈ c.optInRules ∧ id ∉ ids
  mem_onlyRules : ∀ id, id ∈ d.onlyRules ↔ id ∈ c.onlyRules ∧ id ∉ ids
  rules_eq : d.rules = c.rules

/-- Enabling names no only rules where there are none. -/
theorem Enables.onlyRules_eq_nil_iff (h : Enables c ids d) :
    d.onlyRules = [] ↔ c.onlyRules = [] := by
  constructor
  · intro hd
    refine List.eq_nil_iff_forall_not_mem.mpr fun id hid => ?_
    have : id ∈ d.onlyRules := (h.mem_onlyRules id).mpr (.inl hid)
    simp [hd] at this
  · intro hc
    refine List.eq_nil_iff_forall_not_mem.mpr fun id hid => ?_
    simpa [hc] using (h.mem_onlyRules id).mp hid

/-- Enabling one rule enables just that one. -/
theorem enables_enable (c : Configuration) (id : String) : Enables c [id] (c.enable id) where
  mem_disabledRules := by simp [enable]
  mem_optInRules := by simp [enable, mem_addMissing]
  mem_onlyRules other := by
    by_cases honly : c.onlyRules = []
    · simp [enable, honly]
    · simp [enable, honly, mem_addMissing]
  rules_eq := rfl

theorem disables_disable (c : Configuration) (id : String) : Disables c [id] (c.disable id) where
  mem_disabledRules := by simp [disable, mem_addMissing]
  mem_optInRules := by simp [disable]
  mem_onlyRules := by simp [disable]
  rules_eq := rfl

/-- Rules that are enabled one after another are enabled. -/
theorem Enables.cons (hfirst : Enables c [id] d) (hothers : Enables d ids e) :
    Enables c (id :: ids) e where
  mem_disabledRules other := by
    simp [hothers.mem_disabledRules, hfirst.mem_disabledRules, and_assoc]
  mem_optInRules other := by
    simp [hothers.mem_optInRules, hfirst.mem_optInRules, or_assoc]
  mem_onlyRules other := by
    simp only [hothers.mem_onlyRules, hfirst.mem_onlyRules, ne_eq, hfirst.onlyRules_eq_nil_iff,
      List.mem_cons, List.not_mem_nil, or_false]
    rw [or_assoc, ← and_or_left]
  rules_eq := hothers.rules_eq.trans hfirst.rules_eq

/-- Disabling one rule and then some others disables them all. -/
theorem Disables.cons (hfirst : Disables c [id] d) (hothers : Disables d ids e) :
    Disables c (id :: ids) e where
  mem_disabledRules other := by
    simp [hothers.mem_disabledRules, hfirst.mem_disabledRules, or_assoc]
  mem_optInRules other := by
    simp [hothers.mem_optInRules, hfirst.mem_optInRules, and_assoc]
  mem_onlyRules other := by
    simp [hothers.mem_onlyRules, hfirst.mem_onlyRules, and_assoc]
  rules_eq := hothers.rules_eq.trans hfirst.rules_eq

/-- **Enabling rules one after the other.**  Neither their order nor repeated names
matter for what the lists hold. -/
theorem enables_foldl (c : Configuration) (ids : List String) :
    Enables c ids (ids.foldl enable c) := by
  induction ids generalizing c with
  | nil => exact ⟨by simp, by simp, by simp, rfl⟩
  | cons id ids ih => exact (enables_enable c id).cons (ih (c.enable id))

/-- **Disabling rules one after the other.** -/
theorem disables_foldl (c : Configuration) (ids : List String) :
    Disables c ids (ids.foldl disable c) := by
  induction ids generalizing c with
  | nil => exact ⟨by simp, by simp, by simp, rfl⟩
  | cons id ids ih => exact (disables_disable c id).cons (ih (c.disable id))

end Edits

section Override

variable (c : Configuration) (o : Override)

/-- Settings of a run disable rules in what is left when they have enabled others. -/
theorem disables_override :
    Disables (o.enable.foldl enable c) o.disable (c.override o) :=
  have hdisables := disables_foldl (o.enable.foldl enable c) o.disable
  ⟨hdisables.mem_disabledRules, hdisables.mem_optInRules, hdisables.mem_onlyRules,
    hdisables.rules_eq⟩

theorem mem_disabledRules_override (id : String) :
    id ∈ (c.override o).disabledRules ↔
      id ∈ c.disabledRules ∧ id ∉ o.enable ∨ id ∈ o.disable := by
  rw [(disables_override c o).mem_disabledRules, (enables_foldl c o.enable).mem_disabledRules]

theorem mem_optInRules_override (id : String) :
    id ∈ (c.override o).optInRules ↔
      (id ∈ c.optInRules ∨ id ∈ o.enable) ∧ id ∉ o.disable := by
  rw [(disables_override c o).mem_optInRules, (enables_foldl c o.enable).mem_optInRules]

theorem mem_onlyRules_override (id : String) :
    id ∈ (c.override o).onlyRules ↔
      (id ∈ c.onlyRules ∨ c.onlyRules ≠ [] ∧ id ∈ o.enable) ∧ id ∉ o.disable := by
  rw [(disables_override c o).mem_onlyRules, (enables_foldl c o.enable).mem_onlyRules]

/-- Settings of a run give no rule another severity. -/
theorem rules_override : (c.override o).rules = c.rules :=
  (disables_override c o).rules_eq.trans (enables_foldl c o.enable).rules_eq

/-- The only rules of a file restrict a run: there are some, and one of them, or of the
rules enabled with them, is not disabled. -/
def Restricts (c : Configuration) (o : Override) : Prop :=
  c.onlyRules ≠ [] ∧ ∃ id, (id ∈ c.onlyRules ∨ id ∈ o.enable) ∧ id ∉ o.disable

/-- A run that is not restricted offers a rule: the rule runs by itself, or the file asks
for it, or every rule is asked for. -/
def Offers (c : Configuration) (o : Override) (r : Rule) : Prop :=
  r.description.optIn = false ∨ r.id ∈ c.optInRules ∨
    c.enableAllRules = true ∨ o.enableAllRules = true

/-- Only rules are left exactly if those of the file restrict the run. -/
theorem onlyRules_override_ne_nil_iff : (c.override o).onlyRules ≠ [] ↔ c.Restricts o := by
  constructor
  · intro hleft
    obtain ⟨id, hid⟩ := List.exists_mem_of_ne_nil _ hleft
    obtain ⟨hnamed, hdisable⟩ := (mem_onlyRules_override c o id).mp hid
    cases hnamed with
    | inl hfile => exact ⟨List.ne_nil_of_mem hfile, id, .inl hfile, hdisable⟩
    | inr henable => exact ⟨henable.1, id, .inr henable.2, hdisable⟩
  · rintro ⟨hsome, id, hnamed, hdisable⟩
    have hleft : id ∈ c.onlyRules ∨ c.onlyRules ≠ [] ∧ id ∈ o.enable :=
      hnamed.imp_right fun henable => ⟨hsome, henable⟩
    exact List.ne_nil_of_mem ((mem_onlyRules_override c o id).mpr ⟨hleft, hdisable⟩)

/-- Whether a rule runs, read on the lists as sets. -/
theorem selects_eq_true_iff (r : Rule) :
    c.selects r = true ↔ r.id ∉ c.disabledRules ∧
      (c.onlyRules ≠ [] → r.id ∈ c.onlyRules) ∧
      (c.onlyRules = [] → r.description.optIn = false ∨ r.id ∈ c.optInRules ∨
        c.enableAllRules = true) := by
  by_cases honly : c.onlyRules = []
  · simpa [selects, honly, or_assoc] using fun _ => or_rotate
  · simp [selects, honly]

/-- **Selection after the settings of a run.**  A disabled rule does not run and an
enabled one does.  Any other rule that the file does not disable runs if it is one of
the only rules or, in a run that they do not restrict, if it is offered. -/
theorem selects_override_iff (r : Rule) :
    (c.override o).selects r = true ↔ r.id ∉ o.disable ∧
      (r.id ∈ o.enable ∨ r.id ∉ c.disabledRules ∧
        (c.Restricts o → r.id ∈ c.onlyRules) ∧ (¬ c.Restricts o → c.Offers o r)) := by
  have hall : (c.override o).enableAllRules = true ↔
      c.enableAllRules = true ∨ o.enableAllRules = true := Bool.or_eq_true_iff
  have hnil : (c.override o).onlyRules = [] ↔ ¬ c.Restricts o := by
    rw [← onlyRules_override_ne_nil_iff, ne_eq, not_not]
  rw [selects_eq_true_iff, onlyRules_override_ne_nil_iff, hnil, hall,
    mem_disabledRules_override, mem_onlyRules_override, mem_optInRules_override]
  by_cases hdisable : r.id ∈ o.disable
  · simp [hdisable]
  by_cases henable : r.id ∈ o.enable
  · have hsome : c.Restricts o → c.onlyRules ≠ [] := And.left
    simpa [hdisable, henable] using fun h => .inr (hsome h)
  · simp [hdisable, henable, Offers]

/-- The rules that run after the settings of a run, with the severity of the file. -/
theorem value_resolve_override (registry : Registry) :
    ((c.override o).resolve registry).value =
      (registry.rules.filter (c.override o).selects).map c.configure := by
  have hconfigure : (c.override o).configure = c.configure := by
    funext r
    simp only [configure, severity?, rules_override]
  rw [value_resolve, hconfigure]

/-- A rule with the severity that it is given, or its own one. -/
theorem configure_eq (r : Rule) :
    c.configure r = { r with severity := (c.severity? r.id).getD r.severity } := by
  unfold configure
  cases c.severity? r.id <;> rfl

/-- The file and the settings of a run choose a rule: it is not disabled for the run, and
it is enabled for the run or passes the selection of the file. -/
def Chooses (c : Configuration) (o : Override) (r : Rule) : Prop :=
  r.id ∉ o.disable ∧
    (r.id ∈ o.enable ∨ r.id ∉ c.disabledRules ∧
      (c.onlyRules ≠ [] → r.id ∈ c.onlyRules) ∧ (c.onlyRules = [] → c.Offers o r))

instance (r : Rule) : Decidable (c.Offers o r) :=
  inferInstanceAs (Decidable (_ ∨ _ ∨ _ ∨ _))

instance (r : Rule) : Decidable (c.Chooses o r) :=
  inferInstanceAs (Decidable (_ ∧ (_ ∨ _ ∧ (_ → _) ∧ (_ → _))))

end Override

/-- **The rules that run.**  Unless all the only rules of the file go, and the rules
enabled with them, those rules of the registry run that the file and the settings choose,
in the order of the registry, each with the severity that the file gives it or else with
its own. -/
theorem resolve_override (file : Option Configuration) (o : Override) (registry : Registry) :
    let c := file.getD {}
    c.onlyRules = [] ∨ (∃ id, (id ∈ c.onlyRules ∨ id ∈ o.enable) ∧ id ∉ o.disable) →
      ((c.override o).resolve registry).value =
        (registry.rules.filter fun r => c.Chooses o r).map fun r =>
          { r with severity := (c.severity? r.id).getD r.severity } := by
  intro c hleft
  have hrestricts : c.Restricts o ↔ c.onlyRules ≠ [] := by
    constructor
    · exact fun h => h.1
    · intro hsome
      exact ⟨hsome, hleft.resolve_left hsome⟩
  rw [value_resolve_override, funext (configure_eq c)]
  congr 1
  refine List.filter_congr fun r _ => ?_
  rw [Bool.eq_iff_iff, selects_override_iff, decide_eq_true_iff, Chooses, hrestricts,
    ne_eq, not_not]

end Configuration

/-- A registry with the same opt-in rule before and behind a rule that runs by itself. -/
def Registry.optInTwice : Registry :=
  ⟨[RuntimeLet.rule,
    { RuntimeLet.rule with
      description := { RuntimeLet.description with identifier := "other", optIn := false } },
    RuntimeLet.rule]⟩

namespace Configuration

/-- A file whose only rule is not the opt-in rule, which it disables and makes an error. -/
def onlyOther : Configuration where
  disabledRules := ["discouraged_struct_runtime_let"]
  onlyRules := ["other"]
  rules := [("other", none), ("discouraged_struct_runtime_let", some .error)]

/-- Settings that put the opt-in rule in the place of the only rule. -/
def inPlaceOfOther : Override where
  enable := ["other", "discouraged_struct_runtime_let"]
  disable := ["other", "other"]

/-- The enabled rule runs, both times and as an error; the only rule of the file does
not. -/
theorem resolve_override_inPlaceOfOther :
    (onlyOther.onlyRules = [] ∨
      ∃ id, (id ∈ onlyOther.onlyRules ∨ id ∈ inPlaceOfOther.enable) ∧
        id ∉ inPlaceOfOther.disable) ∧
    ((onlyOther.override inPlaceOfOther).resolve .optInTwice).value.map
        (fun r => (r.id, r.severity)) =
      [("discouraged_struct_runtime_let", .error), ("discouraged_struct_runtime_let", .error)] := by
  have hleft : onlyOther.onlyRules = [] ∨
      ∃ id, (id ∈ onlyOther.onlyRules ∨ id ∈ inPlaceOfOther.enable) ∧
        id ∉ inPlaceOfOther.disable :=
    .inr ⟨"discouraged_struct_runtime_let", .inr (by decide), by decide⟩
  have hrun := resolve_override (some onlyOther) inPlaceOfOther .optInTwice hleft
  refine ⟨hleft, (congrArg _ hrun).trans ?_⟩
  decide +kernel

end Configuration

/-- The settings with other rules disabled. -/
def Override.withDisable (o : Override) (disabled : List String) : Override :=
  { o with disable := disabled }

@[simp] theorem Override.enable_withDisable (o : Override) (disabled : List String) :
    (o.withDisable disabled).enable = o.enable := rfl

@[simp] theorem Override.disable_withDisable (o : Override) (disabled : List String) :
    (o.withDisable disabled).disable = disabled := rfl

namespace Configuration

theorem offers_withDisable (c : Configuration) (o : Override) (disabled : List String)
    (r : Rule) : c.Offers (o.withDisable disabled) r ↔ c.Offers o r :=
  Iff.rfl

/-- Other disabled rules set a rule free: they take away the last of the only rules of the
file, and a rule is offered that neither they nor the file disable. -/
def SetsFree (c : Configuration) (o : Override) (disabled : List String)
    (registry : Registry) : Prop :=
  c.Restricts o ∧ ¬ c.Restricts (o.withDisable disabled) ∧
    ∃ r ∈ registry.rules, r.id ∉ disabled ∧ r.id ∉ c.disabledRules ∧ c.Offers o r

section Disabling

variable {c : Configuration} {o : Override} {more disabled : List String}

/-- Once a run is no longer restricted, each rule that was selected is disabled. -/
theorem mem_disabled_of_selects (hrestricts : c.Restricts o)
    (hfree : ¬ c.Restricts (o.withDisable disabled)) {r : Rule}
    (hselects : (c.override o).selects r = true) : r.id ∈ disabled := by
  refine Decidable.byContradiction fun hid => ?_
  obtain ⟨-, henable | ⟨-, honly, -⟩⟩ := (selects_override_iff c o r).mp hselects
  · exact hfree ⟨hrestricts.1, r.id, .inr henable, hid⟩
  · exact hfree ⟨hrestricts.1, r.id, .inl (honly hrestricts), hid⟩

/-- Once a run is no longer restricted, the rules are selected that it is offered. -/
theorem selects_withDisable_of_free (hrestricts : c.Restricts o)
    (hfree : ¬ c.Restricts (o.withDisable disabled)) (r : Rule) :
    (c.override (o.withDisable disabled)).selects r = true ↔
      r.id ∉ disabled ∧ r.id ∉ c.disabledRules ∧ c.Offers o r := by
  rw [selects_override_iff, offers_withDisable, Override.disable_withDisable,
    Override.enable_withDisable]
  refine and_congr_right fun hid => ?_
  have henable : r.id ∉ o.enable := fun henable =>
    hfree ⟨hrestricts.1, r.id, .inr henable, hid⟩
  simp [henable, hfree]

variable (hdisabled : ∀ id, id ∈ disabled ↔ id ∈ o.disable ∨ id ∈ more)
include hdisabled

/-- Disabling more rules restricts no run that was not restricted. -/
theorem Restricts.of_withDisable (h : c.Restricts (o.withDisable disabled)) : c.Restricts o := by
  obtain ⟨hsome, id, hnamed, hdisable⟩ := h
  exact ⟨hsome, id, hnamed, fun hid => hdisable ((hdisabled id).mpr (.inl hid))⟩

/-- As long as a run stays restricted, only the disabled rules go. -/
theorem selects_withDisable_iff (hstays : c.Restricts o → c.Restricts (o.withDisable disabled))
    (r : Rule) :
    (c.override (o.withDisable disabled)).selects r = true ↔
      (c.override o).selects r = true ∧ r.id ∉ more := by
  have hrestricts : c.Restricts (o.withDisable disabled) ↔ c.Restricts o :=
    ⟨Restricts.of_withDisable hdisabled, hstays⟩
  rw [selects_override_iff, selects_override_iff, hrestricts, offers_withDisable,
    Override.disable_withDisable, Override.enable_withDisable, hdisabled, not_or, and_right_comm]

/-- Where no rule is set free, only the disabled rules go. -/
theorem selects_withDisable_of_not_setsFree {registry : Registry}
    (h : ¬ c.SetsFree o disabled registry) {r : Rule} (hr : r ∈ registry.rules) :
    (c.override (o.withDisable disabled)).selects r = true ↔
      (c.override o).selects r = true ∧ r.id ∉ more := by
  by_cases hstays : c.Restricts o → c.Restricts (o.withDisable disabled)
  · exact selects_withDisable_iff hdisabled hstays r
  · obtain ⟨hrestricts, hfree⟩ := Classical.not_imp.mp hstays
    constructor
    · intro hselects
      have hoffered := (selects_withDisable_of_free hrestricts hfree r).mp hselects
      exact absurd ⟨hrestricts, hfree, r, hr, hoffered⟩ h
    · rintro ⟨hselects, hmore⟩
      have hnot : r.id ∉ o.disable := ((selects_override_iff c o r).mp hselects).1
      have hid := mem_disabled_of_selects hrestricts hfree hselects
      exact absurd ((hdisabled r.id).mp hid) (not_or.mpr ⟨hnot, hmore⟩)

end Disabling

/-- **Disabling more rules.**  Only if it sets a rule free does a run select rules that
were not selected.  Otherwise the rules that run are those that ran, without the disabled
ones. -/
theorem resolve_override_withDisable (file : Option Configuration) (o : Override)
    (registry : Registry) {more disabled : List String}
    (hdisabled : ∀ id, id ∈ disabled ↔ id ∈ o.disable ∨ id ∈ more) :
    let c := file.getD {}
    let before := ((c.override o).resolve registry).value
    let after := ((c.override (o.withDisable disabled)).resolve registry).value
    (after ⊆ before ↔ ¬ c.SetsFree o disabled registry) ∧
      (¬ c.SetsFree o disabled registry → after = before.filter fun r => r.id ∉ more) := by
  intro c before after
  have hkept : ¬ c.SetsFree o disabled registry →
      after = before.filter fun r => r.id ∉ more := by
    intro h
    have hselects : registry.rules.filter (c.override (o.withDisable disabled)).selects =
        registry.rules.filter fun r => decide (r.id ∉ more) && (c.override o).selects r := by
      refine List.filter_congr fun r hr => ?_
      rw [Bool.eq_iff_iff, selects_withDisable_of_not_setsFree hdisabled h hr]
      simp [and_comm]
    simp only [after, before, value_resolve_override, hselects, List.filter_map,
      List.filter_filter, Function.comp_def, id_configure]
  refine ⟨⟨?_, fun h => hkept h ▸ List.filter_sublist.subset⟩, hkept⟩
  rintro hsubset ⟨hrestricts, hfree, r, hr, hoffered⟩
  have hselects := (selects_withDisable_of_free hrestricts hfree r).mpr hoffered
  have hafter : c.configure r ∈ after := by
    simp only [after, value_resolve_override]
    exact List.mem_map_of_mem (List.mem_filter.mpr ⟨hr, hselects⟩)
  have hbefore := hsubset hafter
  simp only [before, value_resolve_override, List.mem_map, List.mem_filter] at hbefore
  obtain ⟨r', ⟨-, hselected⟩, hsame⟩ := hbefore
  have hid : r'.id = r.id := by
    rw [← id_configure c r', hsame, id_configure]
  exact hoffered.1 (hid ▸ mem_disabled_of_selects hrestricts hfree hselected)

/-- A file with both rules as the only ones keeps the other one when one is disabled. -/
theorem resolve_override_withDisable_other :
    let file : Configuration := { onlyRules := ["discouraged_struct_runtime_let", "other"] }
    let o : Override := { disable := ["unknown"] }
    (∀ id, id ∈ ["other", "unknown"] ↔ id ∈ o.disable ∨ id ∈ ["other"]) ∧
      ((file.override o).resolve .optInTwice).value.map Rule.id =
        ["discouraged_struct_runtime_let", "other", "discouraged_struct_runtime_let"] ∧
      ((file.override (o.withDisable ["other", "unknown"])).resolve .optInTwice).value.map
        Rule.id = ["discouraged_struct_runtime_let", "discouraged_struct_runtime_let"] := by
  intro file o
  have hdisabled : ∀ id, id ∈ ["other", "unknown"] ↔ id ∈ o.disable ∨ id ∈ ["other"] := by
    simp [o, or_comm]
  have hstays : ¬ file.SetsFree o ["other", "unknown"] .optInTwice := fun h =>
    h.2.1 ⟨by decide, "discouraged_struct_runtime_let", .inl (by decide), by decide⟩
  have hkept :=
    (resolve_override_withDisable (some file) o .optInTwice hdisabled).2 hstays
  refine ⟨hdisabled, by decide +kernel, (congrArg _ hkept).trans ?_⟩
  decide +kernel

/-- A file that asks for the opt-in rule and names another as the only one. -/
def askedForBesidesOnly : Configuration where
  optInRules := ["discouraged_struct_runtime_let"]
  onlyRules := ["other"]

/-- Disabling the only rule of a file selects a rule that was not selected. -/
theorem resolve_override_withDisable_more :
    ((askedForBesidesOnly.override {}).resolve .builtin).value.map Rule.id = [] ∧
      ((askedForBesidesOnly.override (({} : Override).withDisable ["other"])).resolve
        .builtin).value.map Rule.id = ["discouraged_struct_runtime_let"] ∧
      ¬ ((askedForBesidesOnly.override (({} : Override).withDisable ["other"])).resolve
          .builtin).value ⊆ ((askedForBesidesOnly.override {}).resolve .builtin).value := by
  have hbefore : ((askedForBesidesOnly.override {}).resolve .builtin).value.map Rule.id = [] := by
    decide +kernel
  have hafter : ((askedForBesidesOnly.override (({} : Override).withDisable ["other"])).resolve
      .builtin).value.map Rule.id = ["discouraged_struct_runtime_let"] := by
    decide +kernel
  refine ⟨hbefore, hafter, fun hsubset => ?_⟩
  rw [List.map_eq_nil_iff.mp hbefore, List.subset_nil] at hsubset
  rw [hsubset, List.map_nil] at hafter
  exact List.cons_ne_nil _ _ hafter.symm

end Configuration

end DeclLint
