import Pebble.Proofs.Grammar.Constant
import Pebble.Proofs.Grammar.Run

/-!
Progress: a rule leaves an end of the tokens it is given, and the rules that loops repeat take at
least one. Hence the bounds of the loops do not matter, and each loop is the rule that its body
and itself make up.
-/

namespace Pebble.Rule

variable {α β ι : Type} {ts us : List Token}

def left : EStateM.Result Stop (List Token) α → List Token
  | .ok _ rest => rest
  | .error _ rest => rest

@[simp] lemma left_ok (v : α) (rest : List Token) : left (.ok v rest) = rest := rfl

@[simp] lemma left_error (stop : Stop) (rest : List Token) :
    left (.error stop rest : EStateM.Result Stop (List Token) α) = rest := rfl

/-- A rule that leaves an end of the tokens it is given, and that stops at a numeral only if one of
these tokens cannot be read. -/
class Orderly (r : Rule α) : Prop where
  suffix (r) (ts : List Token) : left (r ts) <:+ ts
  numeral (r) {ts rest : List Token} {fault : Numeral.Fault} :
    r ts = .error (.numeral fault) rest → ∃ t ∈ ts, t.reading? = some (.error fault)

/-- A rule that has taken a token when it gives a value. -/
class Advances (r : Rule α) : Prop extends Orderly r where
  length_lt (r) {ts rest : List Token} {v : α} : r ts = .ok v rest → rest.length < ts.length

/-! ### The steps -/

section

lemma Orderly.of_suffix {r : Rule α} (h : ∀ ts, left (r ts) <:+ ts)
    (hn : ∀ ts rest fault, r ts ≠ .error (.numeral fault) rest) : Orderly r :=
  ⟨h, fun hr => absurd hr (hn _ _ _)⟩

instance (v : α) : Orderly (pure v) := .of_suffix (fun _ => List.suffix_refl _) nofun

instance : Orderly get := .of_suffix (fun _ => List.suffix_refl _) nofun

instance (cause : Complaint) : Advances (refuse cause : Rule α) where
  suffix _ := List.suffix_refl _
  numeral h := by simp [refuse_apply] at h
  length_lt h := by simp [refuse_apply] at h

lemma suffix_of_ok {r : Rule α} [Orderly r] {v : α} (h : r ts = .ok v us) : us <:+ ts := by
  have hsuffix := Orderly.suffix r ts
  rwa [h] at hsuffix

lemma suffix_of_error {r : Rule α} [Orderly r] {stop : Stop} (h : r ts = .error stop us) :
    us <:+ ts := by
  have hsuffix := Orderly.suffix r ts
  rwa [h] at hsuffix

lemma length_le_of_ok {r : Rule α} [Orderly r] {v : α} (h : r ts = .ok v us) :
    us.length ≤ ts.length := (suffix_of_ok h).length_le

lemma left_bind_suffix {r : Rule α} {f : α → Rule β} (h : ∀ v, Orderly (f v)) (ts : List Token) :
    left ((r >>= f) ts) <:+ left (r ts) := by
  rw [bind_apply]
  rcases r ts with ⟨v, rest⟩ | ⟨stop, rest⟩
  · exact (h v).suffix rest
  · exact List.suffix_refl _

lemma Orderly.bind {r : Rule α} {f : α → Rule β} [Orderly r] (h : ∀ v, Orderly (f v)) :
    Orderly (r >>= f) := by
  constructor
  · exact fun ts => (left_bind_suffix h ts).trans (Orderly.suffix r ts)
  · intro ts rest fault hres
    rw [bind_apply] at hres
    rcases hv : r ts with ⟨v, mid⟩ | ⟨stop, mid⟩ <;> rw [hv] at hres
    · obtain ⟨t, ht, hread⟩ := (h v).numeral hres
      exact ⟨t, (suffix_of_ok hv).subset ht, hread⟩
    · cases hres
      exact Orderly.numeral r hv

instance {r : Rule α} {f : α → Rule β} [Orderly r] [h : ∀ v, Orderly (f v)] : Orderly (r >>= f) :=
  .bind h

instance {r : Rule α} {f : α → β} [Orderly r] : Orderly (f <$> r) := by
  rw [map_eq_pure_bind]
  infer_instance

/-- What goes on in two ways after a value that may be absent. -/
instance {r : Rule (Option α)} {f : Option α → Rule β} [Orderly r] [Orderly (f none)]
    [h : ∀ v, Orderly (f (some v))] : Orderly (r >>= f) := by
  refine .bind fun found => ?_
  cases found with
  | none => infer_instance
  | some v => exact h v

lemma bind_eq_ok {r : Rule α} {f : α → Rule β} {w : β} (h : (r >>= f) ts = .ok w us) :
    ∃ v mid, r ts = .ok v mid ∧ f v mid = .ok w us := by
  rw [bind_apply] at h
  rcases hres : r ts with ⟨v, mid⟩ | ⟨stop, mid⟩ <;> rw [hres] at h
  · exact ⟨v, mid, rfl, h⟩
  · simp at h

instance {r : Rule α} {f : α → Rule β} [Advances r] [∀ v, Orderly (f v)] : Advances (r >>= f) where
  length_lt h := by
    obtain ⟨v, mid, hr, hf⟩ := bind_eq_ok h
    exact (length_le_of_ok hf).trans_lt (Advances.length_lt r hr)

instance (c : Prop) [Decidable c] {r s : Rule α} [Orderly r] [Orderly s] :
    Orderly (if c then r else s) := by
  split <;> infer_instance

instance {patterns : List Pattern} : Orderly (accept? patterns) := by
  refine .of_suffix (fun ts => ?_) fun ts rest fault => ?_ <;> rcases ts with _ | ⟨t, ts⟩
  · exact List.suffix_refl _
  · rw [accept?_cons]
    split
    · exact List.suffix_cons t ts
    · exact List.suffix_refl _
  · exact nofun
  · rw [accept?_cons]
    split <;> exact nofun

instance (patterns : List Pattern) : Orderly (check patterns) := by
  unfold check
  infer_instance

instance (pattern : Pattern) : Orderly (accepts pattern) := by
  unfold accepts
  infer_instance

/-- A branch on a token of its own advances when the other branch does. -/
instance {pattern : Pattern} {x y : Rule α} [Orderly x] [Advances y] :
    Advances (accepts pattern >>= fun found => if found = true then x else y) where
  length_lt {ts rest v} h := by
    rw [accepts_bind] at h
    obtain ⟨found, mid, hfound, hrest⟩ := bind_eq_ok h
    rcases ts with _ | ⟨t, ts⟩
    · cases hfound
      exact Advances.length_lt y hrest
    rw [accept?_cons] at hfound
    split at hfound
    · cases hfound
      exact Nat.lt_succ_of_le (length_le_of_ok (r := x) hrest)
    · cases hfound
      exact Advances.length_lt y hrest

instance : Orderly name := by
  refine .of_suffix (fun ts => ?_) fun ts rest fault => ?_ <;> by_cases hclear : Clear [.name] ts
  · rw [name_of_clear hclear]
    exact List.suffix_refl _
  · rcases ts with _ | ⟨t, ts⟩
    · exact List.suffix_refl _
    · rw [name_of_eq (by simpa using hclear)]
      exact List.suffix_cons t ts
  · rw [name_of_clear hclear]
    exact nofun
  · rcases ts with _ | ⟨t, ts⟩
    · exact nofun
    · rw [name_of_eq (by simpa using hclear)]
      exact nofun

instance (pattern : Pattern) (kind : ComplaintKind) : Orderly (demand pattern kind) := by
  rw [← bind_pure (demand pattern kind), demand_bind]
  infer_instance

instance {r : Rule α} [Orderly r] : Orderly (discard r) := by
  rw [← bind_pure (discard r), discard_bind]
  infer_instance

instance (word : Keyword) : Orderly (demandWord word) := by
  unfold demandWord
  infer_instance

instance : Orderly semicolon := by
  unfold semicolon
  infer_instance

instance {c : Char} {r : Rule α} [Orderly r] : Orderly (after? c r) := by
  unfold after?
  infer_instance

instance (item : Rule α) [Orderly item] (bound : List Token) : Orderly (others item bound) := by
  induction bound with
  | nil => exact inferInstanceAs (Orderly (pure _))
  | cons _ _ _ =>
    unfold others
    infer_instance

instance (item : Rule α) [Orderly item] : Orderly (commaSeparated item) := by
  unfold commaSeparated
  infer_instance

end

/-! ### Loops -/

/-- The body of a loop asks for the loop itself only after it has taken a token. -/
def Contracts (body : (ι → Rule α) → ι → Rule α) : Prop :=
  ∀ x y i ts, (∀ j us, us.length < ts.length → x j us = y j us) → body x i ts = body y i ts

/-- Bounds that are long enough for some tokens all do the same. -/
lemma loop_bound {loop : ι → List Token → Rule α} {body : (ι → Rule α) → ι → Rule α}
    (contracts : Contracts body) (hnil : ∀ x i, loop i [] [] = body x i [])
    (hcons : ∀ i b bound, loop i (b :: bound) = body (fun j => loop j bound) i)
    {b b' : List Token} {i : ι} {ts : List Token} (hb : ts.length ≤ b.length)
    (hb' : ts.length ≤ b'.length) : loop i b ts = loop i b' ts := by
  have hempty : ∀ i b, loop i b [] = loop i [] [] := by
    rintro i (_ | ⟨t, b⟩)
    · rfl
    · rw [hcons, hnil (fun j => loop j b)]
  -- On one of the bounds: a round leaves fewer tokens, for which what is left of it is enough.
  induction b generalizing i ts b' with
  | nil =>
    obtain rfl : ts = [] := List.length_eq_zero_iff.1 (by simpa using hb)
    exact (hempty i b').symm
  | cons t b ih =>
    rcases b' with _ | ⟨t', b'⟩
    · obtain rfl : ts = [] := List.length_eq_zero_iff.1 (by simpa using hb')
      exact hempty i _
    rw [hcons, hcons]
    refine contracts _ _ _ _ fun j us hus => ?_
    simp only [List.length_cons] at hb hb'
    exact ih (by omega) (by omega)

/-- A loop that may go on as often as there are tokens left is its body, followed by itself. -/
lemma loop_eq (loop : ι → List Token → Rule α) (body : (ι → Rule α) → ι → Rule α)
    (contracts : Contracts body) (hnil : ∀ x i, loop i [] [] = body x i [])
    (hcons : ∀ i b bound, loop i (b :: bound) = body (fun j => loop j bound) i) (i : ι) :
    (get >>= loop i) = body (fun j => get >>= loop j) i := by
  funext ts
  rw [get_bind]
  rcases ts with _ | ⟨t, ts⟩
  · exact hnil _ i
  rw [hcons]
  refine contracts _ _ _ _ fun j us hus => ?_
  rw [get_bind]
  simp only [List.length_cons] at hus
  exact loop_bound contracts hnil hcons (by omega) le_rfl

/-! The steps that a body may start with. -/

lemma accept?_congr {patterns : List Pattern} {k k' : Option Token → Rule α}
    (yes : ∀ t us, ts = t :: us → k (some t) us = k' (some t) us) (no : k none ts = k' none ts) :
    (accept? patterns >>= k) ts = (accept? patterns >>= k') ts := by
  rcases ts with _ | ⟨t, ts⟩
  · exact no
  simp only [bind_apply, accept?_cons]
  by_cases h : patterns.any (·.accepts t)
  · simpa only [if_pos h] using yes t ts rfl
  · simpa only [if_neg h] using no

lemma branch_congr {pattern : Pattern} {x x' y : Rule α}
    (yes : ∀ t us, ts = t :: us → x us = x' us) :
    (accepts pattern >>= fun found => if found = true then x else y) ts =
      (accepts pattern >>= fun found => if found = true then x' else y) ts := by
  rw [accepts_bind, accepts_bind]
  exact accept?_congr yes rfl

lemma bind_congr_of_ok {r : Rule α} {f g : α → Rule β}
    (h : ∀ v us, r ts = .ok v us → f v us = g v us) : (r >>= f) ts = (r >>= g) ts := by
  rw [bind_apply, bind_apply]
  rcases hr : r ts with ⟨v, us⟩ | ⟨stop, us⟩
  · exact h v us hr
  · rfl

lemma others_get (item : Rule α) [Orderly item] :
    (get >>= others item) = do
      if ← accepts (.mark ',') then
        let next ← item
        return next :: (← get >>= others item)
      else
        return [] := by
  refine loop_eq (fun _ : Unit => others item)
    (fun x _ => do
      if ← accepts (.mark ',') then
        let next ← item
        return next :: (← x ())
      else
        return []) ?_ (fun _ _ => rfl) (fun _ _ _ => rfl) ()
  rintro x y _ ts h
  refine branch_congr fun t us hts => bind_congr_of_ok fun v vs hv => ?_
  have hle := length_le_of_ok hv
  rw [bind_apply, bind_apply, h () vs (by simp [hts]; omega)]

lemma commaSeparated_eq {item : Rule α} :
    commaSeparated item = do
      let first ← item
      return first :: (← get >>= others item) := by
  simp only [commaSeparated, bind_assoc]

lemma links_get (operators : List Pattern) (operand : Rule α) [Orderly operand] :
    (get >>= links operators operand) = do
      match ← accept? operators with
      | none => return []
      | some operator =>
        let next ← operand
        return (operator.literal, next) :: (← get >>= links operators operand) := by
  refine loop_eq (fun _ : Unit => links operators operand)
    (fun x _ => do
      match ← accept? operators with
      | none => return []
      | some operator =>
        let next ← operand
        return (operator.literal, next) :: (← x ())) ?_ (fun _ _ => rfl) (fun _ _ _ => rfl) ()
  rintro x y _ ts h
  refine accept?_congr (fun t us hts => bind_congr_of_ok fun v vs hv => ?_) rfl
  have hle := length_le_of_ok hv
  rw [bind_apply, bind_apply, h () vs (by simp [hts]; omega)]

lemma chain_eq {side : Associativity} {combine : Text → α → α → α} {operators : List Pattern}
    {operand : Rule α} :
    chain side combine operators operand = do
      let first ← operand
      return side.fold combine first (← get >>= links operators operand) := by
  simp only [chain, bind_assoc]

/-! ### Expressions -/

section

variable {inner : Rule Expr} [Orderly inner]

instance : Orderly (arguments inner) := by
  unfold arguments
  infer_instance

instance (name : Text) : Orderly (named inner name) := by
  unfold named
  infer_instance

instance : Orderly (grouped inner) := by
  unfold grouped
  infer_instance

lemma left_primary (inner : Rule Expr) [Orderly inner] (t : Token) (rest : List Token) :
    left (primary inner (t :: rest)) <:+ rest ∨
      ∃ stop, primary inner (t :: rest) = .error stop (t :: rest) := by
  rw [primary_cons]
  split
  · exact .inl (List.suffix_refl _)
  · exact .inl (List.suffix_refl _)
  · split
    · exact .inl (Orderly.suffix (named inner t.literal) rest)
    split
    · exact .inl (Orderly.suffix (grouped inner) rest)
    · exact .inr ⟨_, rfl⟩

instance : Orderly (primary inner) := by
  constructor <;> rintro (_ | ⟨t, ts⟩)
  · exact List.suffix_refl _
  · rcases left_primary inner t ts with h | ⟨stop, h⟩
    · exact h.trans (List.suffix_cons t ts)
    · rw [h]
      exact List.suffix_refl _
  · rw [primary_nil]
    exact nofun
  · intro rest fault h
    rw [primary_cons] at h
    split at h
    · cases h
    · next fault' hread =>
      cases h
      exact ⟨t, List.mem_cons_self, hread⟩
    · -- The token is in what `named` and `grouped` were given.
      have key : ∀ r : Rule Expr, Orderly r → r ts = .error (.numeral fault) rest →
          ∃ u ∈ t :: ts, u.reading? = some (.error fault) := by
        intro r hr hres
        obtain ⟨u, hu, hread⟩ := hr.numeral hres
        exact ⟨u, List.mem_cons_of_mem _ hu, hread⟩
      split at h
      · exact key _ inferInstance h
      split at h
      · exact key _ inferInstance h
      · cases h

instance : Advances (primary inner) where
  length_lt {ts rest v} h := by
    rcases ts with _ | ⟨t, ts⟩
    · simp [primary_nil] at h
    · rcases left_primary inner t ts with hl | ⟨stop, hl⟩
      · rw [h] at hl
        exact Nat.lt_succ_of_le hl.length_le
      · simp [hl] at h

instance (receiver : Expr) (bound : List Token) : Orderly (members inner receiver bound) := by
  induction bound generalizing receiver with
  | nil => exact inferInstanceAs (Orderly (pure _))
  | cons _ _ _ =>
    unfold members
    infer_instance

lemma members_get (inner : Rule Expr) [Orderly inner] (receiver : Expr) :
    (get >>= members inner receiver) = do
      if ← accepts (.mark '.') then
        let name ← name
        if ← accepts (.mark '(') then
          get >>= members inner (.invoke receiver name (← arguments inner))
        else
          get >>= members inner (.member receiver name)
      else
        return receiver := by
  refine loop_eq (fun e => members inner e)
    (fun x receiver => do
      if ← accepts (.mark '.') then
        let name ← name
        if ← accepts (.mark '(') then
          x (.invoke receiver name (← arguments inner))
        else
          x (.member receiver name)
      else
        return receiver) ?_ (fun _ _ => rfl) (fun _ _ _ => rfl) receiver
  rintro x y e ts h
  refine branch_congr fun t us hts => bind_congr_of_ok fun n vs hn => ?_
  have hle := length_le_of_ok hn
  rw [accepts_bind, accepts_bind]
  -- with an argument list or without one, the point and the name have been taken
  refine bind_congr_of_ok fun found ws hfound => ?_
  have hle' := length_le_of_ok hfound
  split
  · refine bind_congr_of_ok fun args xs hargs => h _ _ ?_
    have hle'' := length_le_of_ok hargs
    simp only [hts, List.length_cons]
    omega
  · refine h _ _ ?_
    simp only [hts, List.length_cons]
    omega

omit [Orderly inner] in
lemma secondary_eq :
    secondary inner = primary inner >>= fun receiver => get >>= members inner receiver := rfl

instance : Advances (secondary inner) := by
  unfold secondary
  infer_instance

section

variable {operators : List Pattern} {operand : Rule α}

instance [Orderly operand] (bound : List Token) : Orderly (links operators operand bound) := by
  induction bound with
  | nil => exact inferInstanceAs (Orderly (pure _))
  | cons _ _ _ =>
    unfold links
    infer_instance

instance {side : Associativity} {combine : Text → α → α → α} [Orderly operand] :
    Orderly (chain side combine operators operand) := by
  unfold chain
  infer_instance

instance {side : Associativity} {combine : Text → α → α → α} [Advances operand] :
    Advances (chain side combine operators operand) := by
  unfold chain
  infer_instance

end

section

variable {side : Associativity}

instance {l : Level} {operand : Rule Expr} [Advances operand] : Advances (level side l operand) :=
  inferInstanceAs (Advances (chain _ _ _ _))

instance : Advances (multiplicative side inner) := inferInstanceAs (Advances (level _ _ _))

instance : Advances (additive side inner) := inferInstanceAs (Advances (level _ _ _))

instance : Advances (equality side inner) := inferInstanceAs (Advances (level _ _ _))

instance : Advances (logical side inner) := inferInstanceAs (Advances (level _ _ _))

end

end

instance {side : Associativity} (levels : Nat) : Advances (expression side levels) := by
  induction levels with
  | zero => exact inferInstanceAs (Advances (refuse _))
  | succ levels _ => exact inferInstanceAs (Advances (logical side (expression side levels)))

/-! ### Statements -/

section

variable {inner : Rule Expr} [Advances inner] {block : List Pattern → Rule (List Stmt)}
  [∀ terminators, Orderly (block terminators)]

instance : Orderly closing := inferInstanceAs (Orderly (demandWord .END))

instance : Orderly (declaration inner) := by
  unfold declaration
  infer_instance

instance (f : List Stmt → α) : Orderly (elsePart block f) := by
  unfold elsePart
  infer_instance

instance : Orderly (ifElse inner block) := by
  rw [ifElse_eq]
  infer_instance

instance : Orderly (forIn inner block) := by
  unfold forIn
  infer_instance

instance : Orderly (whileDo inner block) := by
  unfold whileDo
  infer_instance

instance : Orderly (returning inner) := by
  unfold returning
  infer_instance

omit [Advances inner] in
lemma left_assignment_suffix [Orderly inner] (ts : List Token) :
    left (assignment inner ts) <:+ left (inner ts) :=
  left_bind_suffix (fun _ => inferInstance) ts

instance : Advances (assignment inner) := by
  unfold assignment
  infer_instance

instance : Advances (statementOf inner block) := by
  unfold statementOf
  infer_instance

end

section

variable {terminators : List Pattern} {statement : Rule Stmt}

instance [Orderly statement] (bound : List Token) :
    Orderly (statements terminators statement bound) := by
  induction bound with
  | nil => exact inferInstanceAs (Orderly (refuse _))
  | cons _ _ _ =>
    unfold statements
    infer_instance

instance [Orderly statement] : Orderly (blockOf statement terminators) := by
  unfold blockOf
  infer_instance

/-- A block that is not at its end is a statement and the rest of the block. -/
lemma blockOf_cons [Advances statement] (t : Token) (ts : List Token) :
    blockOf statement terminators (t :: ts) =
      if terminators.any (·.accepts t) then .ok [] (t :: ts)
      else (do
        let first ← statement
        return first :: (← blockOf statement terminators)) (t :: ts) := by
  -- the loop as its own body, from which the case of a first token is read off
  have h : (get >>= statements terminators statement) = fun ts =>
      if ts.head?.any fun token => terminators.any (·.accepts token) then .ok [] ts
      else if ts.isEmpty then .error (.complaint (.unclosedBlock terminators)) ts
      else (do
        let first ← statement
        return first :: (← get >>= statements terminators statement)) ts := by
    refine loop_eq (fun _ : Unit => statements terminators statement)
      (fun x _ ts =>
        if ts.head?.any fun token => terminators.any (·.accepts token) then .ok [] ts
        else if ts.isEmpty then .error (.complaint (.unclosedBlock terminators)) ts
        else (do
          let first ← statement
          return first :: (← x ())) ts) ?_ (fun _ _ => rfl) (fun _ _ _ => ?_) ()
    · rintro x y _ ts h
      refine if_congr Iff.rfl rfl (if_congr Iff.rfl rfl (bind_congr_of_ok fun v us hv => ?_))
      rw [bind_apply, bind_apply, h () us (Advances.length_lt _ hv)]
    · funext ts
      exact statements_cons _ _ _ _ _
  exact congrFun h (t :: ts)

end

instance {side : Associativity} (levels : Nat) (terminators : List Pattern) :
    Orderly (block side levels terminators) := by
  induction levels generalizing terminators with
  | zero => exact inferInstanceAs (Orderly (refuse _))
  | succ levels ih =>
    have h : Orderly (statement side levels) := by
      rw [statement_eq]
      exact inferInstance
    exact inferInstanceAs (Orderly (blockOf _ _))

instance {side : Associativity} (levels : Nat) : Advances (statement side levels) := by
  rw [statement_eq]
  infer_instance

/-! ### Sources -/

instance : Orderly parameters := by
  unfold parameters
  infer_instance

section

variable {inner : Rule Expr} [Advances inner] {block : List Pattern → Rule (List Stmt)}
  [∀ terminators, Orderly (block terminators)]

instance : Orderly (field inner) := by
  unfold field
  infer_instance

instance : Orderly (method block) := by
  unfold method
  infer_instance

instance : Advances (unexpected : Rule α) where
  suffix ts := by cases ts <;> exact List.suffix_refl _
  numeral {ts _ _} h := by cases ts <;> cases h
  length_lt {ts _ _} h := by cases ts <;> cases h

instance : Advances (item inner block) := by
  unfold item
  infer_instance

end

section

variable {item : Rule Item}

lemma items_get_nil : (get >>= items item) [] = .ok [] [] := rfl

variable [Advances item]

lemma items_get_cons (t : Token) (ts : List Token) :
    (get >>= items item) (t :: ts) = (do
      let first ← item
      return first :: (← get >>= items item)) (t :: ts) := by
  have h : (get >>= items item) = fun ts =>
      if ts.isEmpty then .ok [] ts
      else (do
        let first ← item
        return first :: (← get >>= items item)) ts := by
    refine loop_eq (fun _ : Unit => items item)
      (fun x _ ts =>
        if ts.isEmpty then .ok [] ts
        else (do
          let first ← item
          return first :: (← x ())) ts) ?_ (fun _ _ => rfl) (fun _ _ _ => ?_) ()
    · rintro x y _ ts h
      refine if_congr Iff.rfl rfl (bind_congr_of_ok fun v us hv => ?_)
      rw [bind_apply, bind_apply, h () us (Advances.length_lt _ hv)]
    · funext ts
      exact items_cons _ _ _ _
  exact congrFun h (t :: ts)

instance (bound : List Token) : Orderly (items item bound) := by
  induction bound with
  | nil => exact inferInstanceAs (Orderly (pure _))
  | cons _ _ _ =>
    unfold items
    infer_instance

lemma items_rest {items' : List Item} {rest : List Token}
    (h : (get >>= items item) ts = .ok items' rest) : rest = [] := by
  induction hn : ts.length using Nat.strong_induction_on generalizing ts items' with
  | _ n ih =>
    rcases ts with _ | ⟨t, ts⟩
    · rw [items_get_nil] at h
      cases h
      rfl
    · rw [items_get_cons] at h
      obtain ⟨first, mid, hfirst, h⟩ := bind_eq_ok h
      obtain ⟨others, mid', hothers, h⟩ := bind_eq_ok h
      cases h
      exact ih mid.length (hn ▸ Advances.length_lt _ hfirst) hothers rfl

end

lemma source_eq {side : Associativity} {levels : Nat} :
    source side levels =
      (get >>= items (item (expression side levels) (block side levels))) >>= fun found =>
        pure (.ofItems found) := by
  simp only [source, bind_assoc]

instance {side : Associativity} (levels : Nat) : Orderly (source side levels) := by
  rw [source_eq]
  infer_instance

lemma source_rest {side : Associativity} {levels : Nat} {s : Source} {rest : List Token}
    (h : source side levels ts = .ok s rest) : rest = [] := by
  rw [source_eq] at h
  obtain ⟨found, mid, hfound, h⟩ := bind_eq_ok h
  cases h
  exact items_rest hfound

end Pebble.Rule
