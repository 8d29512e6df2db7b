/-!
# Offers to a changing group

Tasks are offered to the members of a group, who pass or decide and may leave. A task is settled
once; it falls through when those it was offered to have passed.
-/

namespace DshKernel.Lib

open List

/-- What happens to tasks and members. A task that is settled without a result fell through. -/
inductive Happening (τ μ ρ : Type) where
  | offered (task : τ) (member : μ)
  | passed (task : τ) (member : μ)
  | decided (task : τ) (member : μ)
  | left (member : μ)
  | settled (task : τ) (result : Option ρ)

/-- Who is a member, which tasks are open, and from whom an answer is outstanding. -/
@[ext] structure Offers (τ μ : Type) where
  joined : μ → Prop
  isMember : μ → Prop
  started : τ → Prop
  isOpen : τ → Prop
  waiting : τ → μ → Prop

namespace Happening

variable {τ μ ρ : Type}

/-- The settlement of one task that a happening is. -/
def settlementOf [DecidableEq τ] (task : τ) : Happening τ μ ρ → Option (Option ρ)
  | .settled other result => if other = task then some result else none
  | _ => none

def settlements [DecidableEq τ] (task : τ) (log : List (Happening τ μ ρ)) : List (Option ρ) :=
  log.filterMap (settlementOf task)

/-- The member passed or decided. -/
def Answered (task : τ) (member : μ) (log : List (Happening τ μ ρ)) : Prop :=
  .passed task member ∈ log ∨ .decided task member ∈ log

/-- Whenever a task falls through, those it was offered to before have passed or left. -/
def FallsThrough (log : List (Happening τ μ ρ)) : Prop :=
  ∀ before task after, log = before ++ .settled task none :: after →
    ∀ member, .offered task member ∈ before →
      .left member ∈ before ∨ .passed task member ∈ before

variable {log more : List (Happening τ μ ρ)} {task : τ}

theorem FallsThrough.nil : FallsThrough ([] : List (Happening τ μ ρ)) := by
  intro before task after hsplit
  simp at hsplit

theorem FallsThrough.concat {last : Happening τ μ ρ} (h : FallsThrough log)
    (hlast : ∀ task, last = .settled task none → ∀ member, .offered task member ∈ log →
      .left member ∈ log ∨ .passed task member ∈ log) : FallsThrough (log ++ [last]) := by
  intro before task after hsplit
  rcases eq_nil_or_concat after with hnil | ⟨rest, final, hconcat⟩
  · subst hnil
    obtain ⟨hbefore, heq⟩ := append_inj' hsplit rfl
    subst hbefore
    exact hlast task (cons.inj heq).1
  · subst hconcat
    rw [concat_eq_append, ← cons_append, ← append_assoc] at hsplit
    exact h before task rest (append_inj' hsplit rfl).1

/-- Happenings that settle nothing do not matter. -/
theorem FallsThrough.append (h : FallsThrough log)
    (hmore : ∀ happening ∈ more, ∀ task, happening ≠ .settled task none) :
    FallsThrough (log ++ more) := by
  induction more generalizing log with
  | nil => rwa [append_nil]
  | cons first rest ih =>
    rw [append_cons]
    refine ih (h.concat ?_) fun happening hmem => hmore happening (mem_cons_of_mem _ hmem)
    intro task heq
    exact absurd heq (hmore first mem_cons_self task)

variable [DecidableEq τ]

theorem settlements_append : settlements task (log ++ more) =
    settlements task log ++ settlements task more := filterMap_append

theorem settlements_append_of_none (hnone : ∀ happening ∈ more, settlementOf task happening = none) :
    settlements task (log ++ more) = settlements task log := by
  rw [settlements_append, settlements, settlements, filterMap_eq_nil_iff.mpr hnone,
    append_nil]

end Happening

open Happening

/-- What is outstanding agrees with what happened. -/
structure Accounts {τ μ ρ : Type} [DecidableEq τ] (offers : Offers τ μ)
    (log : List (Happening τ μ ρ)) : Prop where
  once : ∀ task, offers.started task →
    (offers.isOpen task ∧ settlements task log = []) ∨
      ¬ offers.isOpen task ∧ ∃ result, settlements task log = [result]
  unstarted : ∀ task, ¬ offers.started task → ¬ offers.isOpen task ∧ settlements task log = [] ∧
    ∀ member, .offered task member ∉ log ∧ ¬ Answered task member log
  unjoined : ∀ member, ¬ offers.joined member → ¬ offers.isMember member ∧ .left member ∉ log ∧
    ∀ task, .offered task member ∉ log ∧ ¬ Answered task member log
  waits : ∀ task member, offers.waiting task member → offers.isOpen task ∧ offers.isMember member ∧
    .offered task member ∈ log ∧ ¬ Answered task member log
  everyone : ∀ task member, offers.isOpen task → offers.isMember member →
    offers.waiting task member ∨ .passed task member ∈ log
  present : ∀ task member, .offered task member ∈ log →
    offers.isMember member ∨ .left member ∈ log
  gone : ∀ member, .left member ∈ log → ¬ offers.isMember member
  lost : ∀ task, offers.isOpen task → (∀ member, ¬ offers.waiting task member) →
    (∀ member, .offered task member ∉ log) ∨
      ∃ member, .offered task member ∈ log ∧ .left member ∈ log ∧ ¬ Answered task member log
  through : FallsThrough log

namespace Offers

variable {τ μ : Type} (offers : Offers τ μ)

def none : Offers τ μ :=
  ⟨fun _ => False, fun _ => False, fun _ => False, fun _ => False, fun _ _ => False⟩

/-- A task is offered to every member. -/
def start (task : τ) : Offers τ μ :=
  { offers with
    started := fun other => other = task ∨ offers.started other
    isOpen := fun other => other = task ∨ offers.isOpen other
    waiting := fun other member => other = task ∧ offers.isMember member ∨ offers.waiting other member }

/-- A task that is settled at once. -/
def startSettled (task : τ) : Offers τ μ :=
  { offers with started := fun other => other = task ∨ offers.started other }

/-- Every open task is offered to a new member. -/
def join (member : μ) : Offers τ μ :=
  { offers with
    joined := fun other => other = member ∨ offers.joined other
    isMember := fun other => other = member ∨ offers.isMember other
    waiting := fun task other => other = member ∧ offers.isOpen task ∨ offers.waiting task other }

def leave (member : μ) : Offers τ μ :=
  { offers with
    isMember := fun other => other ≠ member ∧ offers.isMember other
    waiting := fun task other => other ≠ member ∧ offers.waiting task other }

def pass (task : τ) (member : μ) : Offers τ μ :=
  { offers with
    waiting := fun other who => ¬ (other = task ∧ who = member) ∧ offers.waiting other who }

def settle (task : τ) : Offers τ μ :=
  { offers with
    isOpen := fun other => other ≠ task ∧ offers.isOpen other
    waiting := fun other member => other ≠ task ∧ offers.waiting other member }

end Offers

namespace Accounts

variable {τ μ ρ : Type} [DecidableEq τ] {offers : Offers τ μ} {log : List (Happening τ μ ρ)}
  {task : τ} {member : μ}

theorem none : Accounts Offers.none ([] : List (Happening τ μ ρ)) where
  once _ h := h.elim
  unstarted _ _ := ⟨id, rfl, fun _ => ⟨not_mem_nil, by simp [Answered]⟩⟩
  unjoined _ _ := ⟨id, not_mem_nil, fun _ => ⟨not_mem_nil, by simp [Answered]⟩⟩
  waits _ _ h := h.elim
  everyone _ _ h := h.elim
  present _ _ h := absurd h not_mem_nil
  gone _ h := absurd h not_mem_nil
  lost _ h := h.elim
  through := .nil

theorem start {members : List μ} (h : Accounts offers log) (hfresh : ¬ offers.started task)
    (hmembers : ∀ member, member ∈ members ↔ offers.isMember member) :
    Accounts (offers.start task) (log ++ members.map (.offered task)) := by
  obtain ⟨hclosed, hsettlements, huntouched⟩ := h.unstarted task hfresh
  have hoffered : ∀ other member, Happening.offered other member ∈ log ++ members.map (.offered task) ↔
      .offered other member ∈ log ∨ other = task ∧ offers.isMember member := by
    intro other member
    rw [mem_append, mem_map]
    apply or_congr_right
    constructor
    · rintro ⟨who, hwho, heq⟩
      cases heq
      exact ⟨rfl, (hmembers _).mp hwho⟩
    · rintro ⟨heq, hmember⟩
      exact ⟨member, (hmembers member).mpr hmember, by rw [heq]⟩
  have hanswered : ∀ other member, Answered other member (log ++ members.map (.offered task)) ↔
      Answered other member log := by
    simp [Answered]
  have hleft : ∀ member, Happening.left member ∈ log ++ members.map (.offered task) ↔
      .left member ∈ log := by
    simp
  have hsame : ∀ other, settlements other (log ++ members.map (.offered task)) =
      settlements other log := by
    intro other
    apply settlements_append_of_none
    intro happening hmem
    obtain ⟨member, -, rfl⟩ := mem_map.mp hmem
    rfl
  constructor
  · intro other hstarted
    rw [hsame]
    by_cases hother : other = task
    · subst hother
      exact .inl ⟨.inl rfl, hsettlements⟩
    · rcases h.once other (hstarted.resolve_left hother) with ⟨hopen, hnil⟩ | ⟨hclosed, hone⟩
      · exact .inl ⟨.inr hopen, hnil⟩
      · exact .inr ⟨fun hopen => hopen.elim hother hclosed, hone⟩
  · intro other hunstarted
    have hother : other ≠ task := fun heq => hunstarted (.inl heq)
    obtain ⟨hclosed, hnil, hnone⟩ := h.unstarted other fun hs => hunstarted (.inr hs)
    refine ⟨fun hopen => hopen.elim hother hclosed, by rw [hsame, hnil], fun member => ?_⟩
    rw [hoffered, hanswered]
    exact ⟨fun hmem => hmem.elim (hnone member).1 fun hnew => hother hnew.1, (hnone member).2⟩
  · intro member hunjoined
    obtain ⟨hmember, hnotLeft, hnone⟩ := h.unjoined member hunjoined
    refine ⟨hmember, by rwa [hleft], fun other => ?_⟩
    rw [hoffered, hanswered]
    exact ⟨fun hmem => hmem.elim (hnone other).1 fun hnew => hmember hnew.2, (hnone other).2⟩
  · intro other member hwaiting
    rw [hoffered, hanswered]
    rcases hwaiting with ⟨heq, hmember⟩ | hwaiting
    · subst heq
      exact ⟨.inl rfl, hmember, .inr ⟨rfl, hmember⟩, (huntouched member).2⟩
    · obtain ⟨hopen, hmember, hin, hnot⟩ := h.waits other member hwaiting
      exact ⟨.inr hopen, hmember, .inl hin, hnot⟩
  · intro other member hopen hmember
    by_cases hother : other = task
    · exact .inl (.inl ⟨hother, hmember⟩)
    · rcases h.everyone other member (hopen.resolve_left hother) hmember with hwaiting | hpassed
      · exact .inl (.inr hwaiting)
      · exact .inr (mem_append_left _ hpassed)
  · intro other member hin
    rw [hleft]
    rcases (hoffered other member).mp hin with hold | ⟨-, hmember⟩
    · exact h.present other member hold
    · exact .inl hmember
  · intro member hin
    exact h.gone member ((hleft member).mp hin)
  · intro other hopen hnobody
    simp only [hoffered, hanswered, hleft]
    by_cases hother : other = task
    · subst hother
      refine .inl fun member hin => ?_
      rcases hin with hold | ⟨-, hmember⟩
      · exact (huntouched member).1 hold
      · exact hnobody member (.inl ⟨rfl, hmember⟩)
    · rcases h.lost other (hopen.resolve_left hother) fun member hwaiting =>
        hnobody member (.inr hwaiting) with hnever | ⟨member, hin, hrest⟩
      · exact .inl fun member hin => hin.elim (hnever member) fun hnew => hother hnew.1
      · exact .inr ⟨member, .inl hin, hrest⟩
  · refine h.through.append ?_
    intro happening hmem other heq
    obtain ⟨member, -, rfl⟩ := mem_map.mp hmem
    cases heq

/-- A task that is settled without being offered to anybody. -/
theorem startSettled {result : Option ρ} (h : Accounts offers log) (hfresh : ¬ offers.started task) :
    Accounts (offers.startSettled task) (log ++ [.settled task result]) := by
  obtain ⟨hclosed, hsettlements, huntouched⟩ := h.unstarted task hfresh
  have hoffered : ∀ other member, Happening.offered other member ∈ log ++ [.settled task result] ↔
      .offered other member ∈ log := by
    simp
  have hanswered : ∀ other member, Answered other member (log ++ [.settled task result]) ↔
      Answered other member log := by
    simp [Answered]
  have hleft : ∀ member, Happening.left member ∈ log ++ [.settled task result] ↔
      .left member ∈ log := by
    simp
  have hother : ∀ other, other ≠ task →
      settlements other (log ++ [.settled task result]) = settlements other log := by
    intro other hne
    apply settlements_append_of_none
    intro happening hmem
    rw [mem_singleton.mp hmem, settlementOf, if_neg (Ne.symm hne)]
  constructor
  · intro other hstarted
    by_cases hne : other = task
    · subst hne
      refine .inr ⟨hclosed, result, ?_⟩
      rw [settlements_append, hsettlements]
      simp [settlements, settlementOf]
    · rw [hother other hne]
      exact h.once other (hstarted.resolve_left hne)
  · intro other hunstarted
    obtain ⟨hclosed, hnil, hnone⟩ := h.unstarted other fun hs => hunstarted (.inr hs)
    refine ⟨hclosed, by rw [hother other fun heq => hunstarted (.inl heq), hnil], fun member => ?_⟩
    rw [hoffered, hanswered]
    exact hnone member
  · intro member hunjoined
    simp only [hoffered, hanswered, hleft]
    exact h.unjoined member hunjoined
  · intro other member hwaiting
    rw [hoffered, hanswered]
    exact h.waits other member hwaiting
  · intro other member hopen hmember
    exact (h.everyone other member hopen hmember).imp_right fun hpassed =>
      mem_append_left _ hpassed
  · intro other member hin
    rw [hleft]
    exact h.present other member ((hoffered other member).mp hin)
  · intro member hin
    exact h.gone member ((hleft member).mp hin)
  · intro other hopen hnobody
    simp only [hoffered, hanswered, hleft]
    exact h.lost other hopen hnobody
  · refine h.through.concat ?_
    intro other heq member hin
    cases heq
    exact absurd hin (huntouched member).1

theorem join {tasks : List τ} (h : Accounts offers log) (hfresh : ¬ offers.joined member)
    (htasks : ∀ task, task ∈ tasks ↔ offers.isOpen task) :
    Accounts (offers.join member) (log ++ tasks.map fun task => .offered task member) := by
  obtain ⟨hmember, hnotLeft, huntouched⟩ := h.unjoined member hfresh
  have hoffered : ∀ other who,
      Happening.offered other who ∈ log ++ tasks.map (fun task => .offered task member) ↔
        .offered other who ∈ log ∨ who = member ∧ offers.isOpen other := by
    intro other who
    rw [mem_append, mem_map]
    apply or_congr_right
    constructor
    · rintro ⟨task, htask, heq⟩
      cases heq
      exact ⟨rfl, (htasks _).mp htask⟩
    · rintro ⟨heq, hopen⟩
      exact ⟨other, (htasks other).mpr hopen, by rw [heq]⟩
  have hanswered : ∀ other who,
      Answered other who (log ++ tasks.map fun task => .offered task member) ↔
        Answered other who log := by
    simp [Answered]
  have hleft : ∀ who, Happening.left who ∈ log ++ tasks.map (fun task => .offered task member) ↔
      .left who ∈ log := by
    simp
  have hsame : ∀ other, settlements other (log ++ tasks.map fun task => .offered task member) =
      settlements other log := by
    intro other
    apply settlements_append_of_none
    intro happening hmem
    obtain ⟨task, -, rfl⟩ := mem_map.mp hmem
    rfl
  constructor
  · intro other hstarted
    rw [hsame]
    exact h.once other hstarted
  · intro other hunstarted
    obtain ⟨hclosed, hnil, hnone⟩ := h.unstarted other hunstarted
    refine ⟨hclosed, by rw [hsame, hnil], fun who => ?_⟩
    rw [hoffered, hanswered]
    exact ⟨fun hmem => hmem.elim (hnone who).1 fun hnew => hclosed hnew.2, (hnone who).2⟩
  · intro who hunjoined
    have hwho : who ≠ member := fun heq => hunjoined (.inl heq)
    obtain ⟨hmember, hnotLeft, hnone⟩ := h.unjoined who fun hj => hunjoined (.inr hj)
    refine ⟨fun hm => hm.elim hwho hmember, by rwa [hleft], fun other => ?_⟩
    rw [hoffered, hanswered]
    exact ⟨fun hmem => hmem.elim (hnone other).1 fun hnew => hwho hnew.1, (hnone other).2⟩
  · intro other who hwaiting
    rw [hoffered, hanswered]
    rcases hwaiting with ⟨heq, hopen⟩ | hwaiting
    · subst heq
      exact ⟨hopen, .inl rfl, .inr ⟨rfl, hopen⟩, (huntouched other).2⟩
    · obtain ⟨hopen, hmember, hin, hnot⟩ := h.waits other who hwaiting
      exact ⟨hopen, .inr hmember, .inl hin, hnot⟩
  · intro other who hopen hwho
    by_cases hne : who = member
    · exact .inl (.inl ⟨hne, hopen⟩)
    · rcases h.everyone other who hopen (hwho.resolve_left hne) with hwaiting | hpassed
      · exact .inl (.inr hwaiting)
      · exact .inr (mem_append_left _ hpassed)
  · intro other who hin
    rw [hleft]
    rcases (hoffered other who).mp hin with hold | ⟨heq, -⟩
    · exact (h.present other who hold).imp_left .inr
    · exact .inl (.inl heq)
  · intro who hin hwho
    have hold := (hleft who).mp hin
    rcases hwho with heq | hwho
    · exact hnotLeft (heq ▸ hold)
    · exact h.gone who hold hwho
  · intro other hopen hnobody
    exact absurd (.inl ⟨rfl, hopen⟩) (hnobody member)
  · refine h.through.append ?_
    intro happening hmem other heq
    obtain ⟨task, -, rfl⟩ := mem_map.mp hmem
    cases heq

theorem leave (h : Accounts offers log) (hmember : offers.isMember member) :
    Accounts (offers.leave member) (log ++ [.left member]) := by
  have hoffered : ∀ other who, Happening.offered other who ∈ log ++ [.left member] ↔
      .offered other who ∈ log := by
    simp
  have hanswered : ∀ other who, Answered other who (log ++ [.left member]) ↔
      Answered other who log := by
    simp [Answered]
  have hleft : ∀ who, Happening.left who ∈ log ++ [.left member] ↔
      .left who ∈ log ∨ who = member := by
    simp
  have hsame : ∀ other, settlements other (log ++ [.left member]) = settlements other log := by
    intro other
    apply settlements_append_of_none
    intro happening hmem
    rw [mem_singleton.mp hmem]
    rfl
  constructor
  · intro other hstarted
    rw [hsame]
    exact h.once other hstarted
  · intro other hunstarted
    simp only [hsame, hoffered, hanswered]
    exact h.unstarted other hunstarted
  · intro who hunjoined
    obtain ⟨hnot, hnotLeft, hnone⟩ := h.unjoined who hunjoined
    have hwho : who ≠ member := fun heq => hnot (heq ▸ hmember)
    simp only [hleft, hoffered, hanswered]
    exact ⟨fun hm => hnot hm.2, fun hin => hin.elim hnotLeft hwho, hnone⟩
  · intro other who hwaiting
    obtain ⟨hopen, hwho, hin, hnot⟩ := h.waits other who hwaiting.2
    rw [hoffered, hanswered]
    exact ⟨hopen, ⟨hwaiting.1, hwho⟩, hin, hnot⟩
  · intro other who hopen hwho
    rcases h.everyone other who hopen hwho.2 with hwaiting | hpassed
    · exact .inl ⟨hwho.1, hwaiting⟩
    · exact .inr (mem_append_left _ hpassed)
  · intro other who hin
    rw [hleft]
    by_cases hwho : who = member
    · exact .inr (.inr hwho)
    · exact (h.present other who ((hoffered other who).mp hin)).imp (fun hm => ⟨hwho, hm⟩) .inl
  · intro who hin hwho
    rcases (hleft who).mp hin with hold | heq
    · exact h.gone who hold hwho.2
    · exact hwho.1 heq
  · intro other hopen hnobody
    simp only [hoffered, hanswered, hleft]
    by_cases hwaited : offers.waiting other member
    · obtain ⟨-, -, hin, hnot⟩ := h.waits other member hwaited
      exact .inr ⟨member, hin, .inr rfl, hnot⟩
    · have hnobody' : ∀ who, ¬ offers.waiting other who := by
        intro who hwaiting
        by_cases hwho : who = member
        · exact hwaited (hwho ▸ hwaiting)
        · exact hnobody who ⟨hwho, hwaiting⟩
      rcases h.lost other hopen hnobody' with hnever | ⟨who, hin, hgone, hnot⟩
      · exact .inl hnever
      · exact .inr ⟨who, hin, .inl hgone, hnot⟩
  · refine h.through.concat ?_
    intro other heq
    cases heq

/-- A pass while another answer is outstanding. -/
theorem pass (h : Accounts offers log) (hwaiting : offers.waiting task member)
    (hothers : ∃ other, other ≠ member ∧ offers.waiting task other) :
    Accounts (offers.pass task member) (log ++ [.passed task member]) := by
  obtain ⟨hopen, hmember, hin, hnot⟩ := h.waits task member hwaiting
  have hoffered : ∀ other who, Happening.offered other who ∈ log ++ [.passed task member] ↔
      .offered other who ∈ log := by
    simp
  have hleft : ∀ who, Happening.left who ∈ log ++ [.passed task member] ↔ .left who ∈ log := by
    simp
  have hanswered : ∀ other who, Answered other who (log ++ [.passed task member]) →
      Answered other who log ∨ other = task ∧ who = member := by
    intro other who hanswer
    rcases hanswer with hin | hin
    · rcases mem_append.mp hin with hold | hnew
      · exact .inl (.inl hold)
      · cases mem_singleton.mp hnew
        exact .inr ⟨rfl, rfl⟩
    · rcases mem_append.mp hin with hold | hnew
      · exact .inl (.inr hold)
      · cases mem_singleton.mp hnew
  have hsame : ∀ other, settlements other (log ++ [.passed task member]) = settlements other log := by
    intro other
    apply settlements_append_of_none
    intro happening hmem
    rw [mem_singleton.mp hmem]
    rfl
  constructor
  · intro other hstarted
    rw [hsame]
    exact h.once other hstarted
  · intro other hunstarted
    obtain ⟨hclosed, hnil, hnone⟩ := h.unstarted other hunstarted
    have hother : other ≠ task := fun heq => hclosed (heq ▸ hopen)
    refine ⟨hclosed, by rw [hsame, hnil], fun who => ?_⟩
    rw [hoffered]
    exact ⟨(hnone who).1, fun hanswer =>
      (hanswered other who hanswer).elim (hnone who).2 fun hnew => hother hnew.1⟩
  · intro who hunjoined
    obtain ⟨hnotMember, hnotLeft, hnone⟩ := h.unjoined who hunjoined
    have hwho : who ≠ member := fun heq => hnotMember (heq ▸ hmember)
    refine ⟨hnotMember, by rwa [hleft], fun other => ?_⟩
    rw [hoffered]
    exact ⟨(hnone other).1, fun hanswer =>
      (hanswered other who hanswer).elim (hnone other).2 fun hnew => hwho hnew.2⟩
  · intro other who hwaits
    obtain ⟨hopen, hwho, hin, hnot⟩ := h.waits other who hwaits.2
    rw [hoffered]
    exact ⟨hopen, hwho, hin, fun hanswer => (hanswered other who hanswer).elim hnot hwaits.1⟩
  · intro other who hopen hwho
    by_cases hnew : other = task ∧ who = member
    · refine .inr (mem_append_right _ ?_)
      rw [hnew.1, hnew.2]
      exact mem_singleton_self _
    · rcases h.everyone other who hopen hwho with hwaits | hpassed
      · exact .inl ⟨hnew, hwaits⟩
      · exact .inr (mem_append_left _ hpassed)
  · intro other who hin
    rw [hleft]
    exact h.present other who ((hoffered other who).mp hin)
  · intro who hin
    exact h.gone who ((hleft who).mp hin)
  · intro other hopen hnobody
    simp only [hoffered, hleft]
    by_cases hother : other = task
    · obtain ⟨who, hwho, hwaits⟩ := hothers
      subst hother
      exact absurd ⟨fun heq => hwho heq.2, hwaits⟩ (hnobody who)
    · rcases h.lost other hopen fun who hwaits => hnobody who ⟨fun heq => hother heq.1, hwaits⟩ with
        hnever | ⟨who, hin, hgone, hnot⟩
      · exact .inl hnever
      · exact .inr ⟨who, hin, hgone, fun hanswer =>
          (hanswered other who hanswer).elim hnot fun hnew => hother hnew.1⟩
  · refine h.through.concat ?_
    intro other heq
    cases heq

/-- An open task is settled, after the answer that decided on it if there was one. -/
theorem settle (h : Accounts offers log) (answers : List (Happening τ μ ρ)) (result : Option ρ)
    (hopen : offers.isOpen task)
    (hanswers : ∀ answer ∈ answers, ∃ member, offers.waiting task member ∧
      (answer = .passed task member ∨ answer = .decided task member))
    (hthrough : result = Option.none → ∀ member, offers.waiting task member →
      .passed task member ∈ answers) :
    Accounts (offers.settle task) (log ++ answers ++ [.settled task result]) := by
  have hkind : ∀ answer ∈ answers, (∀ other member, answer ≠ .offered other member) ∧
      (∀ member, answer ≠ .left member) ∧ ∀ other result, answer ≠ .settled other result := by
    intro answer hmem
    obtain ⟨member, -, hanswer⟩ := hanswers answer hmem
    rcases hanswer with rfl | rfl
    · simp
    · simp
  have hoffered : ∀ other who, Happening.offered other who ∈ log ++ answers ++
      [.settled task result] ↔ .offered other who ∈ log := by
    intro other who
    have hnone : Happening.offered other who ∉ answers := fun hmem =>
      (hkind _ hmem).1 other who rfl
    simp [hnone]
  have hleft : ∀ who, Happening.left who ∈ log ++ answers ++ [.settled task result] ↔
      .left who ∈ log := by
    intro who
    have hnone : Happening.left who ∉ answers := fun hmem => (hkind _ hmem).2.1 who rfl
    simp [hnone]
  have hanswered : ∀ other who, Answered other who (log ++ answers ++ [.settled task result]) →
      Answered other who log ∨ other = task ∧ offers.waiting task who := by
    intro other who hanswer
    have hnew : ∀ answer ∈ answers, answer = .passed other who ∨ answer = .decided other who →
        other = task ∧ offers.waiting task who := by
      intro answer hmem hkind
      obtain ⟨member, hwaits, hanswer⟩ := hanswers answer hmem
      rcases hanswer with rfl | rfl
      · rcases hkind with heq | heq <;> cases heq
        exact ⟨rfl, hwaits⟩
      · rcases hkind with heq | heq <;> cases heq
        exact ⟨rfl, hwaits⟩
    rcases hanswer with hin | hin
    · simp only [mem_append, mem_singleton, reduceCtorEq, or_false] at hin
      exact hin.imp .inl fun hmem => hnew _ hmem (.inl rfl)
    · simp only [mem_append, mem_singleton, reduceCtorEq, or_false] at hin
      exact hin.imp .inr fun hmem => hnew _ hmem (.inr rfl)
  have hnoSettlement : ∀ other, settlements other (log ++ answers) = settlements other log := by
    intro other
    apply settlements_append_of_none
    intro answer hmem
    cases hanswer : answer with
    | settled task result => exact absurd hanswer ((hkind answer hmem).2.2 task result)
    | offered _ _ => rfl
    | passed _ _ => rfl
    | decided _ _ => rfl
    | left _ => rfl
  have hother : ∀ other, other ≠ task →
      settlements other (log ++ answers ++ [.settled task result]) = settlements other log := by
    intro other hne
    rw [← hnoSettlement]
    apply settlements_append_of_none
    intro happening hmem
    rw [mem_singleton.mp hmem, settlementOf, if_neg (Ne.symm hne)]
  have hstarted : offers.started task := by
    apply Classical.byContradiction
    intro hunstarted
    exact (h.unstarted task hunstarted).1 hopen
  constructor
  · intro other hstarted
    by_cases hne : other = task
    · subst hne
      refine .inr ⟨fun hopen => hopen.1 rfl, result, ?_⟩
      rcases h.once other hstarted with ⟨-, hnil⟩ | ⟨hclosed, -⟩
      · rw [settlements_append, hnoSettlement, hnil]
        simp [settlements, settlementOf]
      · exact absurd hopen hclosed
    · rw [hother other hne]
      rcases h.once other hstarted with ⟨hopen, hnil⟩ | ⟨hclosed, hone⟩
      · exact .inl ⟨⟨hne, hopen⟩, hnil⟩
      · exact .inr ⟨fun hopen => hclosed hopen.2, hone⟩
  · intro other hunstarted
    obtain ⟨hclosed, hnil, hnone⟩ := h.unstarted other hunstarted
    have hne : other ≠ task := fun heq => hunstarted (heq ▸ hstarted)
    refine ⟨fun hopen => hclosed hopen.2, by rw [hother other hne, hnil], fun who => ?_⟩
    rw [hoffered]
    exact ⟨(hnone who).1, fun hanswer =>
      (hanswered other who hanswer).elim (hnone who).2 fun hnew => hne hnew.1⟩
  · intro who hunjoined
    obtain ⟨hnotMember, hnotLeft, hnone⟩ := h.unjoined who hunjoined
    refine ⟨hnotMember, by rwa [hleft], fun other => ?_⟩
    rw [hoffered]
    exact ⟨(hnone other).1, fun hanswer => (hanswered other who hanswer).elim (hnone other).2
      fun hnew => hnotMember (h.waits task who hnew.2).2.1⟩
  · intro other who hwaits
    obtain ⟨hopen, hwho, hin, hnot⟩ := h.waits other who hwaits.2
    rw [hoffered]
    exact ⟨⟨hwaits.1, hopen⟩, hwho, hin, fun hanswer =>
      (hanswered other who hanswer).elim hnot fun hnew => hwaits.1 hnew.1⟩
  · intro other who hopen hwho
    rcases h.everyone other who hopen.2 hwho with hwaits | hpassed
    · exact .inl ⟨hopen.1, hwaits⟩
    · exact .inr (mem_append_left _ (mem_append_left _ hpassed))
  · intro other who hin
    rw [hleft]
    exact h.present other who ((hoffered other who).mp hin)
  · intro who hin
    exact h.gone who ((hleft who).mp hin)
  · intro other hopen hnobody
    simp only [hoffered, hleft]
    rcases h.lost other hopen.2 fun who hwaits => hnobody who ⟨hopen.1, hwaits⟩ with
      hnever | ⟨who, hin, hgone, hnot⟩
    · exact .inl hnever
    · exact .inr ⟨who, hin, hgone, fun hanswer =>
        (hanswered other who hanswer).elim hnot fun hnew => hopen.1 hnew.1⟩
  · refine (h.through.append fun answer hmem other => (hkind answer hmem).2.2 other _).concat ?_
    intro other heq who hin
    cases heq
    have hin : Happening.offered task who ∈ log := by
      rcases mem_append.mp hin with hold | hnew
      · exact hold
      · exact absurd rfl ((hkind _ hnew).1 task who)
    rcases h.present task who hin with hwho | hgone
    · rcases h.everyone task who hopen hwho with hwaits | hpassed
      · exact .inr (mem_append_right _ (hthrough rfl who hwaits))
      · exact .inr (mem_append_left _ hpassed)
    · exact .inl (mem_append_left _ hgone)

end Accounts

end DshKernel.Lib
