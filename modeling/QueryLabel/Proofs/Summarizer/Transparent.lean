import QueryLabel.Summarizer
import QueryLabel.Proofs.Cache.Holds
import Mathlib.Data.List.Forall2

/-! Summarizers are transparent: whatever was asked before and however little is remembered, the
answers are those of a summarizer that remembers nothing. -/

namespace QueryLabel.Summarizer
open Cache

variable {s t : Summarizer} {sql : String} {texts summaries : List String} {request : Request}
  {requests : List Request} {answers : List Answer} {order : List (String × Nat)}

/-- A summarizer that remembers nothing but summaries of the texts themselves. -/
def Faithful (s : Summarizer) : Prop :=
  s.Holds Summary.ofQuery

/-- What is stored from outside has to be a summary of the text itself. -/
def Request.Honest : Request → Prop
  | .store sql summary => summary = Summary.ofQuery sql
  | _ => True

/-- The answers without a memory. Only a look into the memory shows what is there. -/
def Truthful : Request → Answer → Prop
  | .summarize sql, .summary text => text = Summary.ofQuery sql
  | .batch texts, .summaries summaries => summaries = texts.map Summary.ofQuery
  | .script sql, .summaries summaries => summaries = (Statement.split sql).map Summary.ofQuery
  | .get sql, .found summary => ∀ text ∈ summary, text = Summary.ofQuery sql
  | .store _ _, .done => True
  | .configure _, .done => True
  | .clear, .done => True
  | _, _ => False

theorem summarize_faithful (sql : String) (h : s.Faithful) :
    (s.summarize sql).1 = Summary.ofQuery sql ∧ (s.summarize sql).2.Faithful :=
  Holds.fetch h

theorem batch_faithful (h : s.Faithful) :
    (s.batch texts).1 = texts.map Summary.ofQuery ∧ (s.batch texts).2.Faithful := by
  induction texts generalizing s with
  | nil => exact ⟨rfl, h⟩
  | cons sql texts ih =>
    obtain ⟨hv, hs⟩ := summarize_faithful sql h
    obtain ⟨hvs, hs'⟩ := ih hs
    exact ⟨List.cons_eq_cons.2 ⟨hv, hvs⟩, hs'⟩

theorem serve_truthful (h : s.Faithful) (hr : request.Honest) :
    Truthful request (s.serve request).1 ∧ (s.serve request).2.Faithful := by
  cases request with
  | summarize sql => exact summarize_faithful sql h
  | batch texts => exact batch_faithful h
  | script sql => exact batch_faithful h
  | store sql summary =>
    obtain rfl : summary = Summary.ofQuery sql := hr
    exact ⟨trivial, Holds.store h⟩
  | get sql => exact ⟨fun text ht => Holds.get? h ht, h⟩
  | configure capacity => exact ⟨trivial, Holds.configure h⟩
  | clear => exact ⟨trivial, Holds.clear⟩

theorem serveAll_truthful (h : s.Faithful) (hr : ∀ r ∈ requests, r.Honest) :
    List.Forall₂ Truthful requests (s.serveAll requests).1 := by
  induction requests generalizing s with
  | nil => exact .nil
  | cons request requests ih =>
    obtain ⟨ha, hs⟩ := serve_truthful h (hr request List.mem_cons_self)
    exact .cons ha (ih hs fun r hm => hr r (List.mem_cons_of_mem _ hm))

/-- The fetches of a batch in some order, each with the place that its answer belongs to. -/
def batchIn (s : Summarizer) (order : List (String × Nat)) : List (String × Nat) × Summarizer :=
  ((s.batch (order.map Prod.fst)).1.zip (order.map Prod.snd), (s.batch (order.map Prod.fst)).2)

/-- Runs in which each batch is worked off in any order. -/
inductive Run : Summarizer → List Request → List Answer → Summarizer → Prop
  | nil (s : Summarizer) : Run s [] [] s
  | serve {s s' : Summarizer} {request : Request} {requests : List Request} {answers : List Answer}
      (h : Run (s.serve request).2 requests answers s') :
      Run s (request :: requests) ((s.serve request).1 :: answers) s'
  | batch {s s' : Summarizer} {texts summaries : List String} {order : List (String × Nat)}
      {requests : List Request} {answers : List Answer} (ho : order.Perm texts.zipIdx)
      (ha : (s.batchIn order).1.Perm summaries.zipIdx)
      (h : Run (s.batchIn order).2 requests answers s') :
      Run s (.batch texts :: requests) (.summaries summaries :: answers) s'

theorem eq_of_zipIdx_perm {α : Type} {l l' : List α} (h : l.zipIdx.Perm l'.zipIdx) : l = l' := by
  refine List.ext_getElem? fun i => Option.ext fun x => ?_
  rw [← List.mem_zipIdx_iff_getElem? (x := (x, i)), ← List.mem_zipIdx_iff_getElem? (x := (x, i)),
    h.mem_iff]

/-- In whatever order the texts are taken, each place gets the summary of its text. -/
theorem batchIn_perm (h : s.Faithful) (ho : order.Perm texts.zipIdx) :
    (s.batchIn order).1.Perm (texts.map Summary.ofQuery).zipIdx := by
  have he : (s.batchIn order).1 = order.map (Prod.map Summary.ofQuery id) := by
    rw [batchIn, (batch_faithful h).1, List.map_map, List.zip_map']
    rfl
  rw [he, List.zipIdx_map]
  exact ho.map _

theorem run_truthful (h : s.Faithful) (hr : ∀ r ∈ requests, r.Honest)
    (hrun : Run s requests answers t) : List.Forall₂ Truthful requests answers ∧ t.Faithful := by
  induction hrun with
  | nil => exact ⟨.nil, h⟩
  | @serve s s' request requests answers _ ih =>
    obtain ⟨ha, hs⟩ := serve_truthful h (hr request List.mem_cons_self)
    obtain ⟨has, ht⟩ := ih hs fun r hm => hr r (List.mem_cons_of_mem _ hm)
    exact ⟨.cons ha has, ht⟩
  | @batch s s' texts summaries order requests answers ho ha _ ih =>
    have hsum : summaries = texts.map Summary.ofQuery :=
      eq_of_zipIdx_perm (ha.symm.trans (batchIn_perm h ho))
    obtain ⟨has, ht⟩ := ih (batch_faithful h).2 fun r hm => hr r (List.mem_cons_of_mem _ hm)
    exact ⟨.cons hsum has, ht⟩

/-- But for a look into the memory, a request has one answer. -/
theorem truthful_unique {a b : Answer} (hg : ∀ sql, request ≠ .get sql) (ha : Truthful request a)
    (hb : Truthful request b) : a = b := by
  cases request <;> cases a <;> cases b <;> simp_all [Truthful]

theorem answers_unique {as bs : List Answer} (hg : ∀ sql, .get sql ∉ requests)
    (ha : List.Forall₂ Truthful requests as) (hb : List.Forall₂ Truthful requests bs) :
    as = bs := by
  induction ha generalizing bs with
  | nil => exact (List.forall₂_nil_left_iff.1 hb).symm
  | @cons request a requests as ha _ ih =>
    obtain ⟨b, bs', hb', hbs, rfl⟩ := List.forall₂_cons_left_iff.1 hb
    have hne (sql : String) : request ≠ .get sql := fun h => hg sql (h ▸ List.mem_cons_self)
    rw [truthful_unique hne ha hb', ih (fun sql h => hg sql (List.mem_cons_of_mem _ h)) hbs]

/-- Memory shows in no answer. An empty summarizer of any capacity is faithful, and faithful ones
answer truthfully, in whatever order they work off a batch; so they all answer alike, except where
their memory itself is asked for. -/
theorem transparent : (∀ n, Faithful (.empty n)) ∧
    ∀ s requests, Faithful s → (∀ r ∈ requests, r.Honest) →
      List.Forall₂ Truthful requests (s.serveAll requests).1 ∧
      (∀ answers t, Run s requests answers t → List.Forall₂ Truthful requests answers) ∧
      ∀ t, Faithful t → (∀ sql, .get sql ∉ requests) →
        (t.serveAll requests).1 = (s.serveAll requests).1 := by
  refine ⟨fun n => holds_empty, fun s requests h hr => ⟨serveAll_truthful h hr,
    fun answers t hrun => (run_truthful h hr hrun).1, fun t ht hg => ?_⟩⟩
  exact answers_unique hg (serveAll_truthful ht hr) (serveAll_truthful h hr)

/-- A memory for one summary, in which the first text of a batch is forgotten before its last, and
the same batch worked off from its end. -/
theorem transparent_thrashing :
    let one : Capacity := ⟨1, by decide⟩
    let texts := ["SELECT a FROM t", "DELETE FROM u", "SELECT a FROM t"]
    let requests : List Request := [.batch texts, .store "DROP VIEW v" "DROP VIEW v",
      .configure ⟨2, by decide⟩, .summarize "DELETE FROM u", .clear, .script "DROP VIEW v;"]
    List.Forall₂ Truthful requests (serveAll (.empty one) requests).1 ∧
    (serveAll (.empty .standard) requests).1 = (serveAll (.empty one) requests).1 ∧
    List.Forall₂ Truthful [.batch texts] [.summaries ["SELECT t", "DELETE u", "SELECT t"]] := by
  intro one texts requests
  obtain ⟨hempty, hs⟩ := transparent
  have hd : "DROP VIEW v" = Summary.ofQuery "DROP VIEW v" := by decide
  have hr : ∀ r ∈ requests, r.Honest := by
    simp only [requests, List.forall_mem_cons]
    exact ⟨trivial, hd, trivial, trivial, trivial, trivial, by simp⟩
  have hrun : Run (.empty one) [.batch texts] [.summaries ["SELECT t", "DELETE u", "SELECT t"]]
      (batchIn (.empty one) texts.zipIdx.reverse).2 :=
    .batch (List.reverse_perm _) (by decide) (.nil _)
  obtain ⟨htrue, -, hsame⟩ := hs (.empty one) requests (hempty one) hr
  exact ⟨htrue, hsame _ (hempty _) (by simp [requests]),
    (hs (.empty one) [.batch texts] (hempty one) (by simp [Request.Honest])).2.1 _ _ hrun⟩

end QueryLabel.Summarizer
