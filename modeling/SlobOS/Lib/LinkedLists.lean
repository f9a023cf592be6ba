import Mathlib.Tactic.Common
import Mathlib.Data.List.Nodup

/-!
# Doubly linked lists in memory

Nodes are points of a type with a null point, and the links are functions of a node. A singly linked
segment is a path along one link function; a doubly linked list is a path along `next` whose reverse
is a path along `prev`. The operations are stated by what they do to the two link functions, so that
any memory that stores links can use them.
-/

namespace LinkedLists

variable {α : Type*} {null : α}

/-- Starting at the first point, the links visit the listed nodes and arrive at the last point. -/
def Leads (link : α → α) (null : α) : α → List α → α → Prop
  | first, [], last => first = last
  | first, a :: nodes, last => first = a ∧ a ≠ null ∧ Leads link null (link a) nodes last

section Leads

variable {link link' : α → α} {first last : α} {nodes nodes' : List α}

theorem leads_append : Leads link null first (nodes ++ nodes') last ↔
    ∃ middle, Leads link null first nodes middle ∧ Leads link null middle nodes' last := by
  induction nodes generalizing first with
  | nil => simp [Leads]
  | cons a nodes ih =>
      simp only [List.cons_append, Leads, ih]
      constructor
      · rintro ⟨rfl, hne, middle, hleft, hright⟩
        exact ⟨middle, ⟨rfl, hne, hleft⟩, hright⟩
      · rintro ⟨middle, ⟨rfl, hne, hleft⟩, hright⟩
        exact ⟨rfl, hne, middle, hleft, hright⟩

theorem leads_snoc {a : α} : Leads link null first (nodes ++ [a]) last ↔
    Leads link null first nodes a ∧ a ≠ null ∧ link a = last := by
  rw [leads_append]
  constructor
  · rintro ⟨middle, hleft, rfl, hne, hlink⟩
    exact ⟨hleft, hne, hlink⟩
  · rintro ⟨hleft, hne, hlink⟩
    exact ⟨a, hleft, rfl, hne, hlink⟩

theorem Leads.congr (h : Leads link null first nodes last)
    (hsame : ∀ a ∈ nodes, link' a = link a) : Leads link' null first nodes last := by
  induction nodes generalizing first with
  | nil => exact h
  | cons a nodes ih =>
      obtain ⟨hfirst, hne, hrest⟩ := h
      refine ⟨hfirst, hne, ?_⟩
      rw [hsame a List.mem_cons_self]
      exact ih hrest fun b hb => hsame b (List.mem_cons_of_mem a hb)

theorem Leads.ne_null (h : Leads link null first nodes last) : ∀ a ∈ nodes, a ≠ null := by
  induction nodes generalizing first with
  | nil => simp
  | cons a nodes ih =>
      obtain ⟨-, hne, hrest⟩ := h
      intro b hb
      rcases List.mem_cons.mp hb with rfl | hmem
      · exact hne
      · exact ih hrest b hmem

theorem Leads.first_mem (h : Leads link null first nodes last) : first = last ∨ first ∈ nodes := by
  cases nodes with
  | nil => exact Or.inl h
  | cons a nodes => exact Or.inr (h.1 ▸ List.mem_cons_self)

theorem Leads.link_mem (h : Leads link null first nodes last) :
    ∀ a ∈ nodes, link a = last ∨ link a ∈ nodes := by
  induction nodes generalizing first with
  | nil => simp
  | cons a nodes ih =>
      obtain ⟨-, -, hrest⟩ := h
      intro b hb
      rcases List.mem_cons.mp hb with rfl | hmem
      · exact hrest.first_mem.imp id (List.mem_cons_of_mem b)
      · exact (ih hrest b hmem).imp id (List.mem_cons_of_mem a)

theorem Leads.first_eq_null_iff (h : Leads link null first nodes null) :
    first = null ↔ nodes = [] := by
  cases nodes with
  | nil => exact ⟨fun _ => rfl, fun _ => h⟩
  | cons a nodes => exact ⟨fun heq => absurd (h.1 ▸ heq) h.2.1, fun heq => by cases heq⟩

theorem Leads.link_eq {before after : List α} {a : α}
    (h : Leads link null first (before ++ a :: after) last) : link a = after.headD last := by
  obtain ⟨_, -, -, -, hafter⟩ := leads_append.mp h
  cases after with
  | nil => exact hafter
  | cons b after => exact hafter.1

theorem Leads.successor [DecidableEq α] {before after : List α} {a : α}
    (h : Leads link null first (before ++ a :: after) null) :
    (if link a = null then first else link a) = (after ++ before).headD a := by
  have hlink := h.link_eq
  cases after with
  | nil =>
      have hnull : link a = null := hlink
      rw [if_pos hnull, List.nil_append]
      cases before with
      | nil => exact h.1
      | cons b before => exact h.1
  | cons b after =>
      have hne : b ≠ null := h.ne_null b (by simp)
      rw [hlink, List.headD_cons, if_neg hne]
      rfl

end Leads

structure TwoWay (next prev : α → α) (null head tail : α) (nodes : List α) : Prop where
  forward : Leads next null head nodes null
  backward : Leads prev null tail nodes.reverse null
  nodup : nodes.Nodup

section TwoWay

variable {next prev next' prev' : α → α} {head tail a b : α} {nodes : List α}

theorem TwoWay.nil : TwoWay next prev null null null [] :=
  ⟨rfl, rfl, List.nodup_nil⟩

theorem TwoWay.single (hne : a ≠ null) (hnext : next a = null) (hprev : prev a = null) :
    TwoWay next prev null a a [a] :=
  ⟨⟨rfl, hne, hnext⟩, ⟨rfl, hne, hprev⟩, List.nodup_singleton a⟩

theorem TwoWay.head_eq_null_iff (h : TwoWay next prev null head tail nodes) :
    head = null ↔ nodes = [] :=
  h.forward.first_eq_null_iff

theorem TwoWay.tail_eq_null_iff (h : TwoWay next prev null head tail nodes) :
    tail = null ↔ nodes = [] := by
  rw [h.backward.first_eq_null_iff, List.reverse_eq_nil_iff]

theorem TwoWay.tail_mem (h : TwoWay next prev null head tail nodes) (hne : nodes ≠ []) :
    tail ∈ nodes := by
  rw [← List.mem_reverse]
  exact h.backward.first_mem.resolve_left fun heq => hne (h.tail_eq_null_iff.mp heq)

theorem TwoWay.tail_eq (h : TwoWay next prev null head tail (nodes ++ [a])) : tail = a := by
  have hback := h.backward
  rw [List.reverse_append] at hback
  exact hback.1

theorem TwoWay.tail_eq_of_single (h : TwoWay next prev null head tail [a]) : tail = a :=
  h.backward.1

theorem TwoWay.prev_next (h : TwoWay next prev null head tail nodes) (ha : a ∈ nodes)
    (hnext : next a ≠ null) : next a ∈ nodes ∧ next a ≠ a ∧ prev (next a) = a := by
  obtain ⟨before, after, rfl⟩ := List.append_of_mem ha
  obtain ⟨_, -, -, -, hafter⟩ := leads_append.mp h.forward
  cases after with
  | nil => exact absurd hafter hnext
  | cons c after =>
      have hback := h.backward
      simp only [List.reverse_append, List.reverse_cons, List.append_assoc] at hback
      obtain ⟨_, -, hc⟩ := leads_append.mp hback
      obtain ⟨-, -, ha', -⟩ := hc
      have hnodup := (List.nodup_append.mp h.nodup).2.1
      rw [hafter.1]
      refine ⟨by simp, ?_, ha'⟩
      rintro rfl
      exact (List.nodup_cons.mp hnodup).1 List.mem_cons_self

theorem TwoWay.next_tail (h : TwoWay next prev null head tail nodes) (hne : nodes ≠ []) :
    next tail = null := by
  obtain ⟨rest, last, rfl⟩ := (List.eq_nil_or_concat' nodes).resolve_left hne
  rw [h.tail_eq]
  exact (leads_snoc.mp h.forward).2.2

theorem TwoWay.next_eq_null_iff (h : TwoWay next prev null head tail nodes) (ha : a ∈ nodes) :
    next a = null ↔ a = tail := by
  refine ⟨fun hnext => ?_, fun htail => htail ▸ h.next_tail (List.ne_nil_of_mem ha)⟩
  obtain ⟨before, after, rfl⟩ := List.append_of_mem ha
  obtain ⟨_, -, -, -, hafter⟩ := leads_append.mp h.forward
  cases after with
  | nil => exact h.tail_eq.symm
  | cons c after => exact absurd (hafter.1 ▸ hnext) hafter.2.1

theorem TwoWay.snoc (h : TwoWay next prev null head tail nodes) (hne : nodes ≠ [])
    (hnull : b ≠ null) (hnew : b ∉ nodes) (htail : next' tail = b) (hend : next' b = null)
    (hnext : ∀ a ∈ nodes, a ≠ tail → next' a = next a) (hback : prev' b = tail)
    (hprev : ∀ a ∈ nodes, prev' a = prev a) :
    TwoWay next' prev' null head b (nodes ++ [b]) := by
  refine ⟨?_, ?_, ?_⟩
  · obtain ⟨rest, last, rfl⟩ := (List.eq_nil_or_concat' nodes).resolve_left hne
    obtain ⟨hrest, hlast, -⟩ := leads_snoc.mp h.forward
    have hnodup := List.nodup_append.mp h.nodup
    rw [h.tail_eq] at htail hnext
    rw [leads_snoc, leads_snoc]
    refine ⟨⟨hrest.congr fun a ha => ?_, hlast, htail⟩, hnull, hend⟩
    exact hnext a (by simp [ha]) (hnodup.2.2 a ha last (by simp))
  · rw [List.reverse_append]
    refine ⟨rfl, hnull, ?_⟩
    rw [hback]
    exact h.backward.congr fun a ha => hprev a (List.mem_reverse.mp ha)
  · exact h.nodup.append (List.nodup_singleton b) (by simpa using hnew)

theorem TwoWay.head_mem_of_snoc (h : TwoWay next prev null head tail (nodes ++ [b]))
    (hne : nodes ≠ []) : head ∈ nodes := by
  cases nodes with
  | nil => exact absurd rfl hne
  | cons a nodes => exact h.forward.1 ▸ List.mem_cons_self

theorem TwoWay.prev_mem_of_snoc (h : TwoWay next prev null head tail (nodes ++ [b]))
    (hne : nodes ≠ []) : prev b ∈ nodes := by
  have hback := h.backward
  rw [List.reverse_append] at hback
  rcases hback.2.2.first_mem with hnull | hmem
  · exact absurd (List.reverse_eq_nil_iff.mp (hback.2.2.first_eq_null_iff.mp hnull)) hne
  · exact List.mem_reverse.mp hmem

theorem TwoWay.prev_last (h : TwoWay next prev null head tail (nodes ++ [a] ++ [b])) :
    prev b = a := by
  have hback := h.backward
  simp only [List.reverse_append] at hback
  exact hback.2.2.1

theorem TwoWay.dropLast (h : TwoWay next prev null head tail (nodes ++ [b])) (hne : nodes ≠ [])
    (hend : next' (prev b) = null) (hnext : ∀ a ∈ nodes, a ≠ prev b → next' a = next a)
    (hprev : ∀ a ∈ nodes, prev' a = prev a) :
    TwoWay next' prev' null head (prev b) nodes := by
  have hnodup := (List.nodup_append.mp h.nodup).1
  refine ⟨?_, ?_, hnodup⟩
  · obtain ⟨rest, last, rfl⟩ := (List.eq_nil_or_concat' nodes).resolve_left hne
    obtain ⟨hrest, hlast, -⟩ := leads_snoc.mp (leads_snoc.mp h.forward).1
    rw [h.prev_last] at hend hnext
    rw [leads_snoc]
    refine ⟨hrest.congr fun a ha => ?_, hlast, hend⟩
    exact hnext a (by simp [ha]) ((List.nodup_append.mp hnodup).2.2 a ha last (by simp))
  · have hback := h.backward
    rw [List.reverse_append] at hback
    exact hback.2.2.congr fun a ha => hprev a (List.mem_reverse.mp ha)

theorem TwoWay.prev_eq {before after : List α}
    (h : TwoWay next prev null head tail (before ++ a :: after)) :
    prev a = before.reverse.headD null := by
  have hback := h.backward
  rw [List.reverse_append, List.reverse_cons, List.append_assoc] at hback
  exact hback.link_eq

theorem TwoWay.removed [DecidableEq α] {before after : List α} {head' : α}
    (h : TwoWay next prev null head tail (before ++ a :: after))
    (hnext : ∀ b ∈ before ++ after, next' b = if b = prev a then next a else next b)
    (hhead : head' = if a = head then next a else head) :
    Leads next' null head' (before ++ after) null := by
  have hprev := h.prev_eq
  have hnodup := List.nodup_append.mp h.nodup
  obtain ⟨middle, hbefore, hmiddle, -, hafter⟩ := leads_append.mp h.forward
  rw [hmiddle] at hbefore
  rcases List.eq_nil_or_concat' before with rfl | ⟨rest, c, rfl⟩
  · have hfirst : head = a := hbefore
    rw [hhead, if_pos hfirst.symm]
    apply hafter.congr
    intro b hb
    rw [hnext b hb, hprev, List.reverse_nil, List.headD_nil, if_neg (hafter.ne_null b hb)]
  · have hprev' : prev a = c := by
      rw [hprev, List.reverse_append]
      rfl
    have hmem : head ∈ rest ++ [c] := by
      cases rest with
      | nil => exact hbefore.1 ▸ List.mem_cons_self
      | cons b rest => exact hbefore.1 ▸ List.mem_cons_self
    have hfirst : a ≠ head := fun heq => hnodup.2.2 _ hmem _ List.mem_cons_self heq.symm
    obtain ⟨hrest, hne, -⟩ := leads_snoc.mp hbefore
    rw [hprev'] at hnext
    rw [hhead, if_neg hfirst, List.append_assoc, leads_append]
    refine ⟨c, hrest.congr fun b hb => ?_, rfl, hne, ?_⟩
    · rw [hnext b (by simp [hb]), if_neg]
      exact (List.nodup_append.mp hnodup.1).2.2 b hb c (by simp)
    · rw [hnext c (by simp), if_pos rfl]
      apply hafter.congr
      intro b hb
      rw [hnext b (by simp [hb]), if_neg]
      exact (hnodup.2.2 c (by simp) b (List.mem_cons_of_mem a hb)).symm

end TwoWay

end LinkedLists
