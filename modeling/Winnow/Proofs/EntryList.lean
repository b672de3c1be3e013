import Mathlib.Data.List.Forall2
import Winnow.EntryList

/-!
# Reading list options

`Reads` says what a list option amounts to once its texts can be read: one entry for each text, in
order, and no list if there is no text. An option that is absent lists no texts, so that absent
options and those without entries need no case of their own.
-/

namespace Winnow

/-- The entries of a list option that are not empty; an absent option has none. -/
def listed (option : Option String) : List String :=
  match option with
  | none => []
  | some text => entryTexts text

/-- A computation in two steps succeeds when both steps do. -/
theorem bind_eq_ok {ε α β : Type} {first : Except ε α} {next : α → Except ε β} {result : β} :
    (first >>= next) = .ok result ↔ ∃ middle, first = .ok middle ∧ next middle = .ok result := by
  cases first with
  | error error => simp [bind, Except.bind]
  | ok middle => simp [bind, Except.bind]

/-- A computation that may be refused first succeeds when it is not refused. -/
theorem refused_eq_ok_iff {ε α : Type} {refused : Prop} [Decidable refused] {error : ε}
    {next : Except ε α} {result : α} :
    (if refused then throw error >>= fun _ : PUnit => next else next) = .ok result ↔
      ¬refused ∧ next = .ok result := by
  by_cases holds : refused
  · rw [if_pos holds]
    exact iff_of_false nofun fun both => both.1 holds
  · rw [if_neg holds, and_iff_right holds]

/-- A computation that succeeds comes to something. -/
theorem isOk_iff {ε α : Type} {result : Except ε α} :
    result.isOk = true ↔ ∃ value, result = .ok value := by
  cases result with
  | error error => exact iff_of_false Bool.false_ne_true nofun
  | ok value => exact iff_of_true rfl ⟨value, rfl⟩

/-- A computation on each member of a list succeeds when all succeed, and keeps their order. -/
theorem mapM_eq_ok_iff {ε α β : Type} {next : α → Except ε β} {values : List α}
    {results : List β} :
    values.mapM next = .ok results ↔
      List.Forall₂ (fun value result => next value = .ok result) values results := by
  induction values generalizing results with
  | nil =>
      rw [List.mapM_nil, List.forall₂_nil_left_iff]
      exact ⟨fun same => (Except.ok.inj same).symm, fun same => same ▸ rfl⟩
  | cons value rest inductionHypothesis =>
      rw [List.mapM_cons, List.forall₂_cons_left_iff, bind_eq_ok]
      refine exists_congr fun result => ?_
      rw [bind_eq_ok]
      constructor
      · rintro ⟨here, others, there, same⟩
        exact ⟨others, here, inductionHypothesis.1 there, (Except.ok.inj same).symm⟩
      · rintro ⟨others, here, there, rfl⟩
        exact ⟨here, others, inductionHypothesis.2 there, rfl⟩

namespace EntryList

variable {α : Type} {read : String → Except FilterError α} {text : String}
  {texts : List String} {entries : List α} {list? : Option (EntryList α)}

/-- The entries of an option; without a list there are none. -/
def entriesOf (list? : Option (EntryList α)) : List α :=
  match list? with
  | none => []
  | some list => list.entries

@[simp]
theorem entriesOf_ofEntries? (entries : List α) : entriesOf (ofEntries? entries) = entries := by
  by_cases configured : entries ≠ []
  · rw [ofEntries?, dif_pos configured]
    rfl
  · rw [not_not] at configured
    rw [configured]
    rfl

@[simp]
theorem ofEntries?_entriesOf (list? : Option (EntryList α)) :
    ofEntries? (entriesOf list?) = list? := by
  cases list? with
  | none => rfl
  | some list => exact dif_pos list.entries_ne_nil

theorem entriesOf_eq_nil_iff : entriesOf list? = [] ↔ list? = none := by
  cases list? with
  | none => exact iff_of_true rfl rfl
  | some list => exact iff_of_false list.entries_ne_nil nofun

/-- The entries of an option are read from some texts, one from each and in their order. -/
def Reads (read : String → Except FilterError α) (texts : List String)
    (list? : Option (EntryList α)) : Prop :=
  List.Forall₂ (fun text entry => read text = .ok entry) texts (entriesOf list?)

/-- Parsing reads the texts of an option. -/
theorem parse_eq_ok_iff : parse read text = .ok list? ↔ Reads read (entryTexts text) list? := by
  rw [parse, bind_eq_ok, Reads, ← mapM_eq_ok_iff]
  constructor
  · rintro ⟨entries, each, same⟩
    obtain rfl := Except.ok.inj same
    rw [entriesOf_ofEntries?, each]
  · intro each
    exact ⟨_, each, congrArg Except.ok (ofEntries?_entriesOf list?)⟩

namespace Reads

/-- There is no list exactly when there is no text. -/
theorem eq_none_iff (reads : Reads read texts list?) : list? = none ↔ texts = [] := by
  rw [← entriesOf_eq_nil_iff]
  unfold Reads at reads
  constructor
  · intro empty
    rw [empty] at reads
    exact List.forall₂_nil_right_iff.1 reads
  · rintro rfl
    exact List.forall₂_nil_left_iff.1 reads

/-- The entries are those that can be read from the texts. -/
theorem exists_entry_iff (reads : Reads read texts list?) (holds : α → Prop) :
    (∃ entry ∈ entriesOf list?, holds entry) ↔
      ∃ text ∈ texts, ∃ entry, read text = .ok entry ∧ holds entry := by
  unfold Reads at reads
  generalize entriesOf list? = entries at reads
  induction reads with
  | nil => simp
  | cons here _ inductionHypothesis =>
      simp only [List.exists_mem_cons_iff, inductionHypothesis, here, Except.ok.injEq,
        exists_eq_left']

/-- If a text can only be read as one thing, so can a list of them. -/
theorem entriesOf_eq_map (reads : Reads read texts list?) (meaning : String → α)
    (denotes : ∀ text entry, read text = .ok entry → entry = meaning text) :
    entriesOf list? = texts.map meaning := by
  unfold Reads at reads
  generalize entriesOf list? = entries at reads
  induction reads with
  | nil => rfl
  | cons here _ inductionHypothesis =>
      rw [List.map_cons, inductionHypothesis, denotes _ _ here]

end Reads

end EntryList

end Winnow
