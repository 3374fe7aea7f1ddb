import GoCalls.Build.Constraint
import GoCalls.Build.Platform
import Mathlib.Data.List.Basic
import Mathlib.Tactic.SplitIfs

/-!
# The grammar of constraints

The tokens of a constraint follow a grammar of three layers, one for each operator:

```text
or  := and ('||' and)*
and := not ('&&' not)*
not := '!' not | '(' or ')' | tag
```

Reading goes by how close operators bind instead, and gives up where it is nested too deeply. It
accepts what the grammar derives, with the value of the derivation.

* `Derives`: the grammar, with the values of what it derives.
* `expr_sound`: what is read is derived.
* `Reads`, `ReadsFrom`: what is read wherever it stands, at a given depth or from it on, with one
  rule for each rule of the grammar.
* `expr_of_le`: more depth keeps an answer.
* `expr_ne_tooComplex`: each `(` and `!` takes at most three levels of depth.
* **`eval_ofTokens`**: reading and evaluating tokens agrees with the grammar.
-/

namespace GoCalls.Constraint

/-! ## The grammar -/

/-- The layers of the grammar. -/
inductive Layer
  | or
  | and
  | not
  deriving DecidableEq

/-- A layer derives tokens with a value, where `holds` says which tags hold. -/
inductive Derives (holds : String → Bool) : Layer → List Token → Bool → Prop
  | tag (name : String) : Derives holds .not [.tag name] (holds name)
  | not {ts : List Token} {v : Bool} : Derives holds .not ts v → Derives holds .not (.not :: ts) !v
  | paren {ts : List Token} {v : Bool} :
    Derives holds .or ts v → Derives holds .not (.leftParen :: (ts ++ [.rightParen])) v
  | oneNot {ts : List Token} {v : Bool} : Derives holds .not ts v → Derives holds .and ts v
  | and {ts us : List Token} {v w : Bool} :
    Derives holds .and ts v → Derives holds .not us w →
      Derives holds .and (ts ++ .and :: us) (v && w)
  | oneAnd {ts : List Token} {v : Bool} : Derives holds .and ts v → Derives holds .or ts v
  | or {ts us : List Token} {v w : Bool} :
    Derives holds .or ts v → Derives holds .and us w → Derives holds .or (ts ++ .or :: us) (v || w)

/-- How close the operator of a layer binds; `!` binds closest. -/
def Layer.level : Layer → Nat
  | .or => 1
  | .and => 2
  | .not => 3

/-- The layer that is read where operators must bind at least as close as `level` says. -/
def Layer.ofLevel : Nat → Layer
  | 0 | 1 => .or
  | 2 => .and
  | _ => .not

theorem Layer.level_pos (l : Layer) : 1 ≤ l.level := by
  cases l <;> decide

theorem Layer.level_le (l : Layer) : l.level ≤ 3 := by
  cases l <;> decide

theorem Layer.level_ofLevel_le {l : Layer} : ∀ {n : Nat}, n ≤ l.level →
    (Layer.ofLevel n).level ≤ l.level
  | 0, _ | 1, _ => l.level_pos
  | 2, h => h
  | n + 3, h => Nat.le_trans (Nat.le_add_left 3 n) h

/-! ## Binary operators -/

/-- The binary operators. -/
inductive Connective
  | or
  | and

namespace Connective

def token : Connective → Token
  | .or => .or
  | .and => .and

/-- The layer of the operator. -/
def layer : Connective → Layer
  | .or => .or
  | .and => .and

/-- The layer of its right operand. -/
def inner : Connective → Layer
  | .or => .and
  | .and => .not

def join : Connective → Constraint → Constraint → Constraint
  | .or => .or
  | .and => .and

def value : Connective → Bool → Bool → Bool
  | .or => (· || ·)
  | .and => (· && ·)

@[simp] theorem level_inner (c : Connective) : c.inner.level = c.layer.level + 1 := by
  cases c <;> rfl

theorem ofLevel_succ (c : Connective) : Layer.ofLevel (c.layer.level + 1) = c.inner := by
  cases c <;> rfl

@[simp] theorem eval_join (c : Connective) (holds : String → Bool) (x y : Constraint) :
    (c.join x y).eval holds = c.value (x.eval holds) (y.eval holds) := by
  cases c <;> rfl

theorem token_inj {c d : Connective} (h : c.token = d.token) : c = d := by
  cases c <;> cases d <;> simp_all [token]

end Connective

/-- The next token is no operator that binds at least as close as `level` says. -/
def Stops (level : Nat) (rest : List Token) : Prop :=
  ∀ c : Connective, level ≤ c.layer.level → rest.head? ≠ some c.token

theorem Stops.mono {level level' : Nat} {rest : List Token} (h : Stops level rest)
    (hl : level ≤ level') : Stops level' rest := fun c hc => h c (Nat.le_trans hl hc)

theorem stops_nil (level : Nat) : Stops level [] := by
  simp [Stops]

theorem stops_three (rest : List Token) : Stops 3 rest := by
  intro c hc
  cases c <;> exact absurd hc (by decide)

namespace Derives

variable {holds : String → Bool} {ts us : List Token} {v w : Bool}

theorem join (c : Connective) (h : Derives holds c.layer ts v) (h' : Derives holds c.inner us w) :
    Derives holds c.layer (ts ++ c.token :: us) (c.value v w) := by
  cases c with
  | or => exact .or h h'
  | and => exact .and h h'

/-- What a layer derives, all outer layers derive. -/
theorem lower {l l' : Layer} (h : Derives holds l ts v) (hl : l'.level ≤ l.level) :
    Derives holds l' ts v := by
  cases l <;> cases l' <;> simp [Layer.level] at hl
  case or.or | and.and | not.not => exact h
  case and.or => exact .oneAnd h
  case not.and => exact .oneNot h
  case not.or => exact .oneAnd (.oneNot h)

end Derives

/-! ## One step of reading -/

section Bind

variable {ε α β : Type} {m : Except ε α} {f : α → Except ε β}

theorem bind_eq_ok {b : β} : m >>= f = .ok b ↔ ∃ a, m = .ok a ∧ f a = .ok b := by
  cases m <;> simp [bind, Except.bind]

theorem bind_eq_error {e : ε} :
    m >>= f = .error e ↔ m = .error e ∨ ∃ a, m = .ok a ∧ f a = .error e := by
  cases m <;> simp [bind, Except.bind]

theorem map_eq_ok {g : α → β} {b : β} : m.map g = .ok b ↔ ∃ a, m = .ok a ∧ g a = b := by
  cases m <;> simp [Except.map]

theorem map_eq_error {g : α → β} {e : ε} : m.map g = .error e ↔ m = .error e := by
  cases m <;> simp [Except.map]

end Bind

variable {e e' : Nat → List Token → Except Error (Constraint × List Token)}
  {level count depth : Nat} {x y : Constraint} {ts us rest : List Token}

theorem chain_of_stops (h : Stops level rest) : chain e level count x rest = .ok (x, rest) := by
  unfold chain
  split
  · split_ifs with hl
    · exact absurd rfl (h .or hl)
    · rfl
  · split_ifs with hl
    · exact absurd rfl (h .and hl)
    · rfl
  · rfl

theorem chain_token (c : Connective) (hl : level ≤ c.layer.level) :
    chain e level (count + 1) x (c.token :: rest) =
      e (c.layer.level + 1) rest >>= fun r => chain e level count (c.join x r.1) r.2 := by
  cases c with
  | or => exact if_pos hl
  | and => exact if_pos hl

/-- Either an operator follows that is taken, or none. -/
theorem stops_or_token (level : Nat) (rest : List Token) :
    Stops level rest ∨
      ∃ (c : Connective) (us : List Token), level ≤ c.layer.level ∧ rest = c.token :: us := by
  by_cases h : ∃ c : Connective, level ≤ c.layer.level ∧ rest.head? = some c.token
  · obtain ⟨c, hl, hc⟩ := h
    obtain ⟨us, rfl⟩ := List.head?_eq_some_iff.mp hc
    exact .inr ⟨c, us, hl, rfl⟩
  · exact .inl fun c hl hc => h ⟨c, hl, hc⟩

theorem operand_ok (h : operand e ts = .ok (x, rest)) :
    (∃ name, ts = .tag name :: rest ∧ x = .tag name) ∨
    (∃ us y, ts = .not :: us ∧ e 3 us = .ok (y, rest) ∧ x = .not y) ∨
    ∃ us, ts = .leftParen :: us ∧ e 0 us = .ok (x, .rightParen :: rest) := by
  unfold operand at h
  split at h
  · cases h
  · cases h
    exact .inl ⟨_, rfl, rfl⟩
  · obtain ⟨⟨y, us⟩, hy, hpure⟩ := bind_eq_ok.mp h
    cases hpure
    exact .inr (.inl ⟨_, _, rfl, hy, rfl⟩)
  · obtain ⟨⟨y, us⟩, hy, hclose⟩ := bind_eq_ok.mp h
    split at hclose
    · rename_i heq
      cases heq
      cases hclose
      exact .inr (.inr ⟨_, rfl, hy⟩)
    · cases hclose
  · cases h

theorem expr_succ (depth level : Nat) (ts : List Token) :
    expr (depth + 1) level ts =
      operand (expr depth) ts >>= fun r => chain (expr depth) level r.2.length r.1 r.2 := rfl

/-! ## What is read is derived -/

/-- What a reader takes is derived by its layer, and no operator of this layer follows. -/
def Sound (holds : String → Bool)
    (e : Nat → List Token → Except Error (Constraint × List Token)) : Prop :=
  ∀ (level : Nat) (ts : List Token) (x : Constraint) (rest : List Token),
    e level ts = .ok (x, rest) → ∃ front, ts = front ++ rest ∧
      Derives holds (Layer.ofLevel level) front (x.eval holds) ∧ Stops level rest

variable {holds : String → Bool}

theorem operand_sound (he : Sound holds e) (h : operand e ts = .ok (x, rest)) :
    ∃ front, ts = front ++ rest ∧ Derives holds .not front (x.eval holds) := by
  rcases operand_ok h with ⟨name, rfl, rfl⟩ | ⟨us, y, rfl, hy, rfl⟩ | ⟨us, rfl, hx⟩
  · exact ⟨[.tag name], rfl, .tag name⟩
  · obtain ⟨front, rfl, hd, -⟩ := he _ _ _ _ hy
    exact ⟨.not :: front, rfl, .not hd⟩
  · obtain ⟨front, rfl, hd, -⟩ := he _ _ _ _ hx
    exact ⟨.leftParen :: (front ++ [.rightParen]), by simp, .paren hd⟩

/-- Taking operators keeps what is derived: a right side takes all closer operators after it. -/
theorem chain_sound (he : Sound holds e) {front : List Token} {l : Layer}
    (hl : (Layer.ofLevel level).level ≤ l.level) (hx : Derives holds l front (x.eval holds))
    (hr : Stops (l.level + 1) ts) (hc : ts.length ≤ count)
    (h : chain e level count x ts = .ok (y, rest)) :
    ∃ more, ts = more ++ rest ∧
      Derives holds (Layer.ofLevel level) (front ++ more) (y.eval holds) ∧ Stops level rest := by
  induction count generalizing x ts front l with
  | zero =>
    obtain rfl := List.length_eq_zero_iff.mp (Nat.le_zero.mp hc)
    cases h
    exact ⟨[], rfl, by simpa using hx.lower hl, stops_nil level⟩
  | succ count ih =>
    rcases stops_or_token level ts with hs | ⟨c, us, hlevel, rfl⟩
    · rw [chain_of_stops hs] at h
      cases h
      exact ⟨[], rfl, by simpa using hx.lower hl, hs⟩
    · rw [chain_token c hlevel] at h
      obtain ⟨⟨z, us'⟩, hz, hchain⟩ := bind_eq_ok.mp h
      obtain ⟨right, rfl, hd, hstop⟩ := he _ _ _ _ hz
      rw [Connective.ofLevel_succ] at hd
      have hcl : c.layer.level ≤ l.level := by
        by_contra hgt
        exact hr c (Nat.lt_of_not_le hgt) rfl
      have hjoin : Derives holds c.layer (front ++ c.token :: right) ((c.join x z).eval holds) := by
        rw [Connective.eval_join]
        exact (hx.lower hcl).join c hd
      have hlen : us'.length ≤ count := by
        simp only [List.length_cons, List.length_append] at hc
        omega
      obtain ⟨more, rfl, hmore, hrest⟩ :=
        ih (Layer.level_ofLevel_le hlevel) hjoin hstop hlen hchain
      exact ⟨c.token :: (right ++ more), by simp, by simpa using hmore, hrest⟩

/-- **What is read is derived**, with its value. -/
theorem expr_sound (holds : String → Bool) (depth : Nat) : Sound holds (expr depth) := by
  induction depth with
  | zero =>
    intro level ts x rest h
    cases h
  | succ depth ih =>
    intro level ts x rest h
    rw [expr_succ] at h
    obtain ⟨⟨y, us⟩, hy, hchain⟩ := bind_eq_ok.mp h
    obtain ⟨front, rfl, hd⟩ := operand_sound ih hy
    obtain ⟨more, rfl, hmore, hrest⟩ := chain_sound ih (Layer.level_le _) hd
      ((stops_three us).mono (Nat.le_succ 3)) (Nat.le_refl _) hchain
    exact ⟨front ++ more, by simp, hmore, hrest⟩

/-- The number of tokens is no bound for operators. -/
theorem chain_count (he : Sound holds e) {count' : Nat} (hc : ts.length ≤ count)
    (hc' : ts.length ≤ count') : chain e level count x ts = chain e level count' x ts := by
  induction count generalizing count' x ts with
  | zero =>
    obtain rfl := List.length_eq_zero_iff.mp (Nat.le_zero.mp hc)
    rw [chain_of_stops (stops_nil level), chain_of_stops (stops_nil level)]
  | succ count ih =>
    rcases stops_or_token level ts with hs | ⟨c, us, hlevel, rfl⟩
    · rw [chain_of_stops hs, chain_of_stops hs]
    · obtain ⟨count', rfl⟩ := Nat.exists_eq_add_of_lt (Nat.lt_of_lt_of_le (Nat.succ_pos _) hc')
      rw [Nat.zero_add, chain_token c hlevel, chain_token c hlevel]
      cases hz : e (c.layer.level + 1) us with
      | error reason => rfl
      | ok r =>
        obtain ⟨right, rfl, -⟩ := he _ _ _ _ hz
        simp only [List.length_cons, List.length_append] at hc hc'
        exact ih (by omega) (by omega)

/-! ## What is derived is read -/

/-- Some tokens are read as an expression of a layer, whatever may follow them. -/
def Reads (holds : String → Bool) (depth : Nat) (l : Layer) (ts : List Token) (v : Bool) : Prop :=
  ∀ level ≤ l.level, ∀ rest, Stops (l.level + 1) rest → ∃ x : Constraint, x.eval holds = v ∧
    expr (depth + 1) level (ts ++ rest) = chain (expr depth) level rest.length x rest

namespace Reads

variable {l l' : Layer} {v w : Bool}

/-- Where no operator follows, the reading is complete. -/
theorem ok (h : Reads holds depth l ts v) (hl : level ≤ l.level) (hs : Stops level rest) :
    ∃ x : Constraint, x.eval holds = v ∧ expr (depth + 1) level (ts ++ rest) = .ok (x, rest) := by
  obtain ⟨x, hx, hread⟩ := h level hl rest (hs.mono (Nat.le_succ_of_le hl))
  exact ⟨x, hx, hread.trans (chain_of_stops hs)⟩

theorem lower (h : Reads holds depth l ts v) (hl : l'.level ≤ l.level) :
    Reads holds depth l' ts v := fun level hlevel rest hr =>
  h level (Nat.le_trans hlevel hl) rest (hr.mono (Nat.succ_le_succ hl))

theorem tag (depth : Nat) (name : String) : Reads holds depth .not [.tag name] (holds name) :=
  fun _ _ _ _ => ⟨.tag name, rfl, rfl⟩

theorem not (h : Reads holds depth .not ts v) : Reads holds (depth + 1) .not (.not :: ts) !v := by
  intro level _ rest _
  obtain ⟨x, hx, hread⟩ := h.ok (Nat.le_refl 3) (stops_three rest)
  refine ⟨.not x, by rw [eval, hx], ?_⟩
  rw [expr_succ, List.cons_append, operand, hread]
  rfl

theorem paren (h : Reads holds depth .or ts v) :
    Reads holds (depth + 1) .not (.leftParen :: (ts ++ [.rightParen])) v := by
  intro level _ rest _
  have hs : Stops 0 (.rightParen :: rest) := by
    intro c _
    cases c <;> simp [Connective.token]
  obtain ⟨x, hx, hread⟩ := h.ok (Nat.zero_le _) hs
  refine ⟨x, hx, ?_⟩
  rw [expr_succ, List.cons_append, List.append_assoc, List.singleton_append, operand, hread]
  rfl

/-- An operator is taken after its left side. -/
theorem join (c : Connective) (h : Reads holds (depth + 1) c.layer ts v)
    (h' : Reads holds depth c.inner us w) :
    Reads holds (depth + 1) c.layer (ts ++ c.token :: us) (c.value v w) := by
  intro level hl rest hr
  have hnext : Stops (c.layer.level + 1) (c.token :: (us ++ rest)) := by
    intro d hd hd'
    obtain rfl := Connective.token_inj (Option.some.inj hd')
    omega
  obtain ⟨x, hx, hleft⟩ := h level hl _ hnext
  obtain ⟨y, hy, hright⟩ := h'.ok (Nat.le_of_eq c.level_inner.symm) hr
  refine ⟨c.join x y, by rw [c.eval_join, hx, hy], ?_⟩
  rw [List.append_assoc, List.cons_append, hleft, List.length_cons, chain_token c hl, hright]
  exact chain_count (expr_sound holds _) (by simp) (Nat.le_refl _)

end Reads

/-- Some tokens are read at all depths from `n` on. -/
def ReadsFrom (holds : String → Bool) (n : Nat) (l : Layer) (ts : List Token) (v : Bool) : Prop :=
  ∀ depth ≥ n, Reads holds depth l ts v

namespace ReadsFrom

variable {n k : Nat} {l l' : Layer} {v w : Bool}

theorem mono (h : ReadsFrom holds n l ts v) (hn : n ≤ k) : ReadsFrom holds k l ts v :=
  fun depth hd => h depth (Nat.le_trans hn hd)

theorem lower (h : ReadsFrom holds n l ts v) (hl : l'.level ≤ l.level) :
    ReadsFrom holds n l' ts v := fun depth hd => (h depth hd).lower hl

theorem tag (name : String) : ReadsFrom holds 0 .not [.tag name] (holds name) :=
  fun depth _ => Reads.tag depth name

theorem of_succ (h : ∀ depth ≥ n, Reads holds (depth + 1) l ts v) :
    ReadsFrom holds (n + 1) l ts v := by
  intro depth hd
  obtain ⟨depth, rfl⟩ := Nat.exists_eq_add_of_le' (Nat.le_trans (Nat.le_add_left 1 n) hd)
  exact h depth (Nat.le_of_succ_le_succ hd)

theorem not (h : ReadsFrom holds n .not ts v) : ReadsFrom holds (n + 1) .not (.not :: ts) !v :=
  of_succ fun depth hd => (h depth hd).not

theorem paren (h : ReadsFrom holds n .or ts v) :
    ReadsFrom holds (n + 1) .not (.leftParen :: (ts ++ [.rightParen])) v :=
  of_succ fun depth hd => (h depth hd).paren

theorem join (c : Connective) (h : ReadsFrom holds (n + 1) c.layer ts v)
    (h' : ReadsFrom holds n c.inner us w) :
    ReadsFrom holds (n + 1) c.layer (ts ++ c.token :: us) (c.value v w) :=
  of_succ fun depth hd => (h (depth + 1) (Nat.succ_le_succ hd)).join c (h' depth hd)

theorem join_add (c : Connective) (h : ReadsFrom holds n c.layer ts v)
    (h' : ReadsFrom holds k c.inner us w) :
    ReadsFrom holds (n + k + 1) c.layer (ts ++ c.token :: us) (c.value v w) :=
  join c (h.mono (by omega)) (h'.mono (by omega))

end ReadsFrom

/-- **What is derived is read**, where the depth suffices. -/
theorem Derives.reads {l : Layer} {v : Bool} (h : Derives holds l ts v) :
    ∃ n, ReadsFrom holds n l ts v := by
  induction h with
  | tag name => exact ⟨0, .tag name⟩
  | not _ ih =>
    obtain ⟨n, ih⟩ := ih
    exact ⟨n + 1, ih.not⟩
  | paren _ ih =>
    obtain ⟨n, ih⟩ := ih
    exact ⟨n + 1, ih.paren⟩
  | oneNot _ ih =>
    obtain ⟨n, ih⟩ := ih
    exact ⟨n, ih.lower (by decide)⟩
  | and _ _ ih ih' =>
    obtain ⟨n, ih⟩ := ih
    obtain ⟨k, ih'⟩ := ih'
    exact ⟨n + k + 1, ih.join_add .and ih'⟩
  | oneAnd _ ih =>
    obtain ⟨n, ih⟩ := ih
    exact ⟨n, ih.lower (by decide)⟩
  | or _ _ ih ih' =>
    obtain ⟨n, ih⟩ := ih
    obtain ⟨k, ih'⟩ := ih'
    exact ⟨n + k + 1, ih.join_add .or ih'⟩

/-! ## Depth -/

/-- A reader gives the answers of another one that does not give up. -/
def Refines (e e' : Nat → List Token → Except Error (Constraint × List Token)) : Prop :=
  ∀ level ts, e level ts ≠ .error .tooComplex → e' level ts = e level ts

theorem operand_refines (he : Refines e e') (h : operand e ts ≠ .error .tooComplex) :
    operand e' ts = operand e ts := by
  cases ts with
  | nil => rfl
  | cons t us =>
    cases t with
    | not =>
      rw [operand, operand, he 3 us fun hus => h (by rw [operand, hus]; rfl)]
    | leftParen =>
      rw [operand, operand, he 0 us fun hus => h (by rw [operand, hus]; rfl)]
    | _ => rfl

theorem chain_refines (he : Refines e e') (h : chain e level count x ts ≠ .error .tooComplex) :
    chain e' level count x ts = chain e level count x ts := by
  induction count generalizing x ts with
  | zero => unfold chain; rfl
  | succ count ih =>
    rcases stops_or_token level ts with hs | ⟨c, us, hlevel, rfl⟩
    · rw [chain_of_stops hs, chain_of_stops hs]
    · rw [chain_token c hlevel] at h ⊢
      rw [chain_token c hlevel, he _ us fun hus => h (by rw [hus]; rfl)]
      cases hz : e (c.layer.level + 1) us with
      | error reason => rfl
      | ok r =>
        rw [hz] at h
        exact ih h

theorem expr_refines (depth : Nat) : Refines (expr depth) (expr (depth + 1)) := by
  induction depth with
  | zero =>
    intro level ts h
    exact absurd rfl h
  | succ depth ih =>
    intro level ts h
    rw [expr_succ] at h ⊢
    rw [expr_succ, operand_refines ih fun hop => h (by rw [hop]; rfl)]
    cases hop : operand (expr depth) ts with
    | error reason => rfl
    | ok r =>
      rw [hop] at h
      exact chain_refines ih h

/-- **More depth keeps an answer.** -/
theorem expr_of_le {depth' : Nat} (hd : depth ≤ depth') :
    Refines (expr depth) (expr depth') := by
  induction hd with
  | refl => exact fun _ _ _ => rfl
  | step _ ih =>
    intro level ts h
    have hkeep := ih level ts h
    rw [expr_refines _ level ts (hkeep ▸ h), hkeep]

/-- A token that opens an operand: `!` or `(`. -/
def Token.opens : Token → Bool
  | .not | .leftParen => true
  | _ => false

theorem operand_tooComplex (h : operand e ts = .error .tooComplex) :
    ∃ level us, us.countP Token.opens < ts.countP Token.opens ∧
      e level us = .error .tooComplex := by
  cases ts with
  | nil => cases h
  | cons t us =>
    cases t with
    | not =>
      rcases bind_eq_error.mp h with hus | ⟨r, -, hr⟩
      · exact ⟨3, us, by simp [List.countP_cons, Token.opens], hus⟩
      · cases hr
    | leftParen =>
      rcases bind_eq_error.mp h with hus | ⟨⟨y, vs⟩, -, hr⟩
      · exact ⟨0, us, by simp [List.countP_cons, Token.opens], hus⟩
      · split at hr <;> cases hr
    | _ => cases h

theorem chain_tooComplex (he : Sound holds e) (h : chain e level count x ts = .error .tooComplex) :
    ∃ (c : Connective) (us : List Token), level ≤ c.layer.level ∧
      us.countP Token.opens ≤ ts.countP Token.opens ∧
      e (c.layer.level + 1) us = .error .tooComplex := by
  induction count generalizing x ts with
  | zero => unfold chain at h; cases h
  | succ count ih =>
    rcases stops_or_token level ts with hs | ⟨c, us, hlevel, rfl⟩
    · rw [chain_of_stops hs] at h
      cases h
    · rw [chain_token c hlevel] at h
      rcases bind_eq_error.mp h with hus | ⟨⟨y, vs⟩, hy, hr⟩
      · exact ⟨c, us, hlevel, List.countP_cons .. ▸ Nat.le_add_right _ _, hus⟩
      · obtain ⟨d, ws, hd, hws, hlast⟩ := ih hr
        obtain ⟨front, rfl, -⟩ := he _ _ _ _ hy
        dsimp only at hws
        refine ⟨d, ws, hd, ?_, hlast⟩
        rw [List.countP_cons, List.countP_append]
        omega

/-- **Each `(` and `!` takes at most three levels of depth.** -/
theorem expr_ne_tooComplex
    (h : 4 + 3 * ts.countP Token.opens ≤ depth + (Layer.ofLevel level).level) :
    expr depth level ts ≠ .error .tooComplex := by
  have hlevel := (Layer.ofLevel level).level_le
  induction depth generalizing level ts with
  | zero => omega
  | succ depth ih =>
    intro hexpr
    rw [expr_succ] at hexpr
    rcases bind_eq_error.mp hexpr with hop | ⟨⟨x, us⟩, hop, hchain⟩
    · obtain ⟨level', us, hus, he⟩ := operand_tooComplex hop
      have hpos := (Layer.ofLevel level').level_pos
      exact ih (by omega) (Layer.level_le _) he
    · obtain ⟨c, vs, hc, hvs, he⟩ := chain_tooComplex (expr_sound (fun _ => false) depth) hchain
      obtain ⟨front, rfl, -⟩ := operand_sound (expr_sound (fun _ => false) depth) hop
      have hnext := Layer.level_ofLevel_le hc
      refine ih ?_ (Layer.level_le _) he
      rw [c.ofLevel_succ, c.level_inner]
      rw [List.countP_append] at h
      dsimp only at hvs
      omega

/-! ## Whole lists of tokens -/

theorem ofTokens_eq_ok {x : Constraint} :
    ofTokens ts = .ok x ↔ expr maxDepth 0 ts = .ok (x, []) := by
  unfold ofTokens
  rw [bind_eq_ok]
  constructor
  · rintro ⟨⟨y, rest⟩, hy, h⟩
    cases rest with
    | nil =>
      cases h
      exact hy
    | cons t rest => cases h
  · intro h
    exact ⟨_, h, rfl⟩

theorem ofTokens_eq_tooComplex :
    ofTokens ts = .error .tooComplex ↔ expr maxDepth 0 ts = .error .tooComplex := by
  unfold ofTokens
  rw [bind_eq_error]
  refine or_iff_left ?_
  rintro ⟨⟨y, rest⟩, -, h⟩
  cases rest <;> cases h

theorem Reads.ofTokens {v : Bool} (h : Reads holds (maxDepth - 1) .or ts v) :
    (Constraint.ofTokens ts).map (eval holds) = .ok v := by
  obtain ⟨x, hx, hread⟩ := h.ok (Nat.zero_le _) (stops_nil 0)
  rw [List.append_nil] at hread
  rw [ofTokens_eq_ok.mpr hread, ← hx]
  rfl

theorem Derives.ofTokens {v : Bool} (h : Derives holds .or ts v) :
    (Constraint.ofTokens ts).map (eval holds) = .ok v ∨
      Constraint.ofTokens ts = .error .tooComplex := by
  by_cases hdeep : expr maxDepth 0 ts = .error .tooComplex
  · exact .inr (ofTokens_eq_tooComplex.mpr hdeep)
  · obtain ⟨n, hn⟩ := h.reads
    obtain ⟨x, hx, hread⟩ := (hn (n + maxDepth) (Nat.le_add_right _ _)).ok (Nat.zero_le _)
      (stops_nil 0)
    rw [List.append_nil, expr_of_le (by omega) 0 ts hdeep] at hread
    rw [ofTokens_eq_ok.mpr hread, ← hx]
    exact .inl rfl

/-- **Reading agrees with the grammar**, where tokens are not nested too deeply, as with at most 32
of `(` and `!`. -/
theorem eval_ofTokens (platform : Platform) (ts : List Token) :
    let result := (ofTokens ts).map (eval platform.hasTag)
    (∀ v, result = .ok v → Derives platform.hasTag .or ts v) ∧
    (∀ v, Derives platform.hasTag .or ts v → result = .ok v ∨ result = .error .tooComplex) ∧
    (∀ reason, result = .error reason → reason ≠ .tooComplex →
      ∀ v, ¬ Derives platform.hasTag .or ts v) ∧
    (ts.countP Token.opens ≤ 32 → result ≠ .error .tooComplex) := by
  intro result
  have hcomplete : ∀ v, Derives platform.hasTag .or ts v →
      result = .ok v ∨ result = .error .tooComplex := by
    intro v h
    refine h.ofTokens.imp_right fun hdeep => ?_
    unfold result
    rw [hdeep]
    rfl
  refine ⟨?_, hcomplete, ?_, ?_⟩
  · intro v h
    obtain ⟨x, hx, rfl⟩ := map_eq_ok.mp h
    obtain ⟨front, rfl, hd, -⟩ := expr_sound platform.hasTag _ _ _ _ _ (ofTokens_eq_ok.mp hx)
    rwa [List.append_nil]
  · intro reason h hreason v hv
    rcases hcomplete v hv with hok | hdeep
    · cases h.symm.trans hok
    · exact hreason (Except.error.inj (h.symm.trans hdeep))
  · intro hcount h
    refine expr_ne_tooComplex ?_ (ofTokens_eq_tooComplex.mp (map_eq_error.mp h))
    change 4 + 3 * ts.countP Token.opens ≤ 100 + 1
    omega

/-- `darwin || linux && !arm64` holds on Linux, and `linux &&` is no constraint. -/
theorem eval_ofTokens_mixed :
    let holds := Platform.hasTag {}
    let mixed : List Token := [.tag "darwin", .or, .tag "linux", .and, .not, .tag "arm64"]
    let broken : List Token := [.tag "linux", .and]
    ((ofTokens mixed).map (eval holds) = .ok true ∧ Derives holds .or mixed true) ∧
      (mixed.countP Token.opens ≤ 32 ∧ (ofTokens mixed).map (eval holds) ≠ .error .tooComplex) ∧
      (ofTokens broken).map (eval holds) = .error .unexpectedEnd ∧
      ∀ v, ¬ Derives holds .or broken v := by
  intro holds mixed broken
  obtain ⟨hsound, -, -, hdepth⟩ := eval_ofTokens {} mixed
  obtain ⟨-, -, hrefused, -⟩ := eval_ofTokens {} broken
  have hmixed : (ofTokens mixed).map (eval holds) = .ok true := by rfl
  have hcount : mixed.countP Token.opens ≤ 32 := by decide
  have hbroken : (ofTokens broken).map (eval holds) = .error .unexpectedEnd := by rfl
  exact ⟨⟨hmixed, hsound true hmixed⟩, ⟨hcount, hdepth hcount⟩, hbroken,
    hrefused .unexpectedEnd hbroken (by decide)⟩

-- One more parenthesis than the bound allows can be too deep.
example : ofTokens ((List.replicate 33 [.tag "a", .or, .tag "b", .and, .leftParen]).flatten ++
    [.tag "a", .or, .tag "b"]) = .error .tooComplex := by
  decide +kernel

end GoCalls.Constraint
