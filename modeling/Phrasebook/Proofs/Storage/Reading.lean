import Phrasebook.Storage.Disk

/-!
# Proofs — Storage — Reading

Runs of scripts one after the other, and scripts that only read.  A `Storage` is a way to answer
requests of which two things are known: what is read depends on the contents alone, and reading
leaves the contents as they are.

* `run_bind`: the run of one script and then another is the one run and then the other.
* `Asks`: every request that a script can ask, whatever the answers are, satisfies a predicate;
  `mem_requests` carries it to the requests of a run.
* `run_of_reads`: a script that only reads leaves the contents as they are, and its value is the
  one that it has when every answer comes from the storage as it was at the start (`eval`).  So are
  its requests (`requests_of_reads`).

Memory and the disk are storages.  What the disk has left out of listings is no part of its
contents.
-/

namespace Phrasebook

/-- A run, and behind it another that starts where it has ended. -/
def Run.followedBy {σ α β : Type} (first : Run σ α) (second : Run σ β) : Run σ β :=
  ⟨second.value, second.storage, first.requests ++ second.requests, first.notes ++ second.notes⟩

namespace Script

variable {α β σ : Type}

/-- **Runs compose.**  The second script runs on the value and the storage that the first leaves. -/
theorem run_bind (answer : (r : Request) → σ → r.Answer × σ) (f : α → Script β) :
    ∀ (script : Script α) (s : σ),
      (script.bind f).run answer s =
        (script.run answer s).followedBy
          ((f (script.run answer s).value).run answer (script.run answer s).storage)
  | .done _, _ => rfl
  | .ask r next, s => by
      have ih := run_bind answer f (next (answer r s).1) (answer r s).2
      simp only [bind, run, ih, Run.followedBy, List.cons_append]
  | .note n next, s => by
      have ih := run_bind answer f next s
      simp only [bind, run, ih, Run.followedBy, List.cons_append]

/-! ### The requests that a script can ask -/

/-- Every request that the script can ask satisfies `p`, whatever the answers are. -/
def Asks (p : Request → Prop) : Script α → Prop
  | .done _ => True
  | .ask r next => p r ∧ ∀ x, (next x).Asks p
  | .note _ next => next.Asks p

theorem Asks.bind {p : Request → Prop} {script : Script α} {f : α → Script β}
    (h : script.Asks p) (hf : ∀ a, (f a).Asks p) : (script.bind f).Asks p := by
  induction script with
  | done a => exact hf a
  | ask r next ih => exact ⟨h.1, fun x => ih x (h.2 x)⟩
  | note n next ih => exact ih h

/-- The requests of a run are among those that the script can ask. -/
theorem Asks.mem_requests {p : Request → Prop} {answer : (r : Request) → σ → r.Answer × σ}
    {script : Script α} (h : script.Asks p) (s : σ) :
    ∀ r ∈ (script.run answer s).requests, p r := by
  induction script generalizing s with
  | done a => intro r hr; cases hr
  | ask q next ih =>
      intro r hr
      rcases List.mem_cons.mp hr with rfl | hr
      · exact h.1
      · exact ih _ (h.2 _) _ r hr
  | note n next ih => exact ih h s

/-- The script asks only what changes nothing. -/
abbrev Reads (script : Script α) : Prop :=
  script.Asks fun r => r.isRead = true

/-- The value of a script that is always answered alike. -/
def eval (oracle : (r : Request) → r.Answer) : Script α → α
  | .done a => a
  | .ask r next => (next (oracle r)).eval oracle
  | .note _ next => next.eval oracle

theorem eval_bind (oracle : (r : Request) → r.Answer) (f : α → Script β) :
    ∀ script : Script α, (script.bind f).eval oracle = (f (script.eval oracle)).eval oracle
  | .done _ => rfl
  | .ask r next => eval_bind oracle f (next (oracle r))
  | .note _ next => eval_bind oracle f next

/-- A script cannot tell two ways to answer apart that agree on what it asks. -/
theorem Asks.eval_congr {p : Request → Prop} {oracle oracle' : (r : Request) → r.Answer}
    (hp : ∀ r, p r → oracle r = oracle' r) {script : Script α} (h : script.Asks p) :
    script.eval oracle = script.eval oracle' := by
  induction script with
  | done a => rfl
  | ask r next ih =>
      rw [eval, eval, hp r h.1]
      exact ih _ (h.2 _)
  | note n next ih => exact ih h

/-- The requests of a script that is always answered alike. -/
def asked (oracle : (r : Request) → r.Answer) : Script α → List Request
  | .done _ => []
  | .ask r next => r :: (next (oracle r)).asked oracle
  | .note _ next => next.asked oracle

theorem asked_bind (oracle : (r : Request) → r.Answer) (f : α → Script β) :
    ∀ script : Script α, (script.bind f).asked oracle =
      script.asked oracle ++ (f (script.eval oracle)).asked oracle
  | .done _ => rfl
  | .ask r next => congrArg (r :: ·) (asked_bind oracle f (next (oracle r)))
  | .note _ next => asked_bind oracle f next

/-- Nor does it ask other requests then. -/
theorem Asks.asked_congr {p : Request → Prop} {oracle oracle' : (r : Request) → r.Answer}
    (hp : ∀ r, p r → oracle r = oracle' r) {script : Script α} (h : script.Asks p) :
    script.asked oracle = script.asked oracle' := by
  induction script with
  | done a => rfl
  | ask r next ih =>
      rw [asked, asked, hp r h.1]
      exact congrArg (r :: ·) (ih _ (h.2 _))
  | note n next ih => exact ih h

end Script

/-- A way to answer requests. -/
structure Storage (σ κ : Type) where
  answer : (r : Request) → σ → r.Answer × σ
  /-- The directories and files. -/
  contents : σ → κ
  /-- What is read depends on the contents alone. -/
  answer_congr : ∀ r s t, r.isRead = true → contents s = contents t →
    (answer r s).1 = (answer r t).1
  /-- Reading leaves the contents as they are. -/
  contents_read : ∀ r s, r.isRead = true → contents (answer r s).2 = contents s

namespace Storage

variable {α β σ κ : Type} (S : Storage σ κ)

/-- Runs a script. -/
def run (script : Script α) (s : σ) : Run σ α :=
  script.run S.answer s

/-- The answers that the storage gives as it is. -/
def oracle (s : σ) (r : Request) : r.Answer :=
  (S.answer r s).1

/-- Scripts that only read have the same value wherever the contents are the same. -/
theorem eval_congr {script : Script α} (h : script.Reads) {s t : σ}
    (hcontents : S.contents s = S.contents t) :
    script.eval (S.oracle s) = script.eval (S.oracle t) :=
  h.eval_congr fun r hr => S.answer_congr r s t hr hcontents

/-- **A script that only reads.**  It leaves the contents as they are, and might as well have had
all of its answers at the start. -/
theorem run_of_reads {script : Script α} (h : script.Reads) (s : σ) :
    S.contents (S.run script s).storage = S.contents s ∧
      (S.run script s).value = script.eval (S.oracle s) := by
  induction script generalizing s with
  | done a => exact ⟨rfl, rfl⟩
  | ask r next ih =>
      -- the rest of the script meets the contents as they were, so it can be answered from `s`
      have hread := S.contents_read r s h.1
      obtain ⟨hcontents, hvalue⟩ := ih (S.oracle s r) (h.2 _) (S.answer r s).2
      exact ⟨hcontents.trans hread, hvalue.trans (S.eval_congr (h.2 _) hread)⟩
  | note n next ih => exact ih h s

/-- A script that only reads asks what it would ask if it had its answers from the start. -/
theorem requests_of_reads {script : Script α} (h : script.Reads) (s : σ) :
    (S.run script s).requests = script.asked (S.oracle s) := by
  induction script generalizing s with
  | done a => rfl
  | ask r next ih =>
      have hread := S.contents_read r s h.1
      have hrest := ih (S.oracle s r) (h.2 _) (S.answer r s).2
      have halike := (h.2 (S.oracle s r)).asked_congr fun q hq => S.answer_congr q _ s hq hread
      exact congrArg (r :: ·) (hrest.trans halike)
  | note n next ih => exact ih h s

end Storage

namespace Memory

/-- A request that is not refused is performed. -/
theorem answer_of_refusal? {m : Memory} {r : Request} (h : m.refusal? r = none) :
    answer r m = m.perform r := by
  simp only [answer, h]

/-- A request with another answer than a refusal has not been refused. -/
theorem refusal?_eq_none {m : Memory} {r : Request}
    (h : ∀ reason, (answer r m).1 ≠ r.fail (.refused reason)) : m.refusal? r = none := by
  cases hrefusal : m.refusal? r with
  | none => rfl
  | some reason =>
      refine absurd ?_ (h reason)
      simp only [answer, hrefusal]

theorem answer_of_isRead {r : Request} (h : r.isRead = true) (m : Memory) :
    (answer r m).2 = m := by
  unfold answer
  cases m.refusal? r with
  | some reason => rfl
  | none => cases r <;> first | rfl | cases h

/-- Memory, of which everything is contents. -/
def storage : Storage Memory Memory where
  answer := answer
  contents := id
  answer_congr := fun r _ _ _ h => congrArg (fun m => (answer r m).1) h
  contents_read := fun _ m h => answer_of_isRead h m

end Memory

namespace Disk

/-- The directories, files and links, and where paths start. -/
def tree (d : Disk) : List (Place × Node) × Place :=
  (d.nodes, d.workingDirectory)

theorem node?_congr {d d' : Disk} (h : d.tree = d'.tree) (place : Place) :
    d.node? place = d'.node? place := by
  rw [node?, node?, show d.nodes = d'.nodes from congrArg Prod.fst h]

theorem resolve_congr {d d' : Disk} (h : d.tree = d'.tree) (links : Nat) (here : Place)
    (steps : List String) : d.resolve links here steps = d'.resolve links here steps := by
  fun_induction resolve d links here steps <;> rw [resolve] <;> grind [node?_congr]

theorem find_congr {d d' : Disk} (h : d.tree = d'.tree) (path : Path) :
    d.find path = d'.find path := by
  rw [find, find, show d.workingDirectory = d'.workingDirectory from congrArg Prod.snd h]
  simp only [resolve_congr h]

theorem findNode_congr {d d' : Disk} (h : d.tree = d'.tree) (path : Path) :
    d.findNode path = d'.findNode path := by
  rw [findNode, findNode, find_congr h]
  simp only [node?_congr h]

theorem entriesOf_congr {d d' : Disk} (h : d.tree = d'.tree) (path : Path) :
    d.entriesOf path = d'.entriesOf path := by
  rw [entriesOf, entriesOf, find_congr h, show d.nodes = d'.nodes from congrArg Prod.fst h]
  simp only [node?_congr h]

theorem list_congr {d d' : Disk} (h : d.tree = d'.tree) (path : Path) (kind : Node → Bool) :
    (d.list path kind).1 = (d'.list path kind).1 := by
  rw [list, list, entriesOf_congr h]
  cases d'.entriesOf path <;> rfl

theorem perform_congr {d d' : Disk} (h : d.tree = d'.tree) {r : Request} (hr : r.isRead = true) :
    (d.perform r).1 = (d'.perform r).1 := by
  cases r with
  | directoryExists path => simp only [perform, isDirectory, findNode_congr h]
  | listDirectories path => exact list_congr h path _
  | listFiles path => exact list_congr h path _
  | readText path => simp only [perform, readText, findNode_congr h]
  | writeText | removeAll | createAll => cases hr

theorem tree_list (d : Disk) (path : Path) (kind : Node → Bool) :
    (d.list path kind).2.tree = d.tree := by
  unfold list
  cases d.entriesOf path <;> rfl

theorem tree_perform (d : Disk) {r : Request} (hr : r.isRead = true) :
    (d.perform r).2.tree = d.tree := by
  cases r with
  | directoryExists path => rfl
  | listDirectories path => exact tree_list d path _
  | listFiles path => exact tree_list d path _
  | readText path => rfl
  | writeText | removeAll | createAll => cases hr

/-- The disk. -/
def storage : Storage Disk (List (Place × Node) × Place) where
  answer := answer
  contents := tree
  answer_congr := fun r d d' hr h => by
    unfold answer
    split
    · rfl
    · exact perform_congr h hr
  contents_read := fun r d hr => by
    unfold answer
    split
    · rfl
    · exact tree_perform d hr

end Disk

end Phrasebook
