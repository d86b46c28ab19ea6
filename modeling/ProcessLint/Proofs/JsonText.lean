import ProcessLint.Json.Read
import ProcessLint.Json.Record
import ProcessLint.Json.Write
import ProcessLint.Proofs.Tokens

/-! Values that read back. What a layout writes for a value of plain numbers is read as the
value. -/
namespace ProcessLint
namespace Json

/-- A value of records, arrays, texts and numbers with a property. -/
inductive Every (p : Numeral → Prop) : Json → Prop
  | null : Every p .null
  | bool (b : Bool) : Every p (.bool b)
  | number {n : Numeral} (h : p n) : Every p (.number n)
  | text (s : String) : Every p (.text s)
  | array {items : List Json} (h : ∀ v ∈ items, Every p v) : Every p (.array items)
  | record {members : List (String × Json)} (h : ∀ m ∈ members, Every p m.2) :
    Every p (.record members)

attribute [simp] Every.text

/-- A layout that puts nothing but blanks between the tokens. -/
structure Layout.IsBlank (l : Layout) : Prop where
  line : ∀ depth, ∀ c ∈ l.line depth, Token.isBlank c
  gap : ∀ c ∈ l.gap, Token.isBlank c

theorem Layout.isBlank_compact : Layout.compact.IsBlank := ⟨by simp [compact], by simp [compact]⟩

theorem Layout.isBlank_indented : Layout.indented.IsBlank := by
  refine ⟨fun depth c hc => ?_, List.forall_mem_singleton.mpr rfl⟩
  rcases List.mem_cons.mp hc with rfl | hc
  · rfl
  · rw [List.eq_of_mem_replicate hc]
    rfl

def spell (ls : List Lexeme) : List Char := ls.flatMap fun (blanks, t) => blanks ++ t.text

@[simp] theorem spell_nil : spell [] = [] := rfl

@[simp] theorem spell_cons (blanks : List Char) (t : Token) (ls : List Lexeme) :
    spell ((blanks, t) :: ls) = blanks ++ (t.text ++ spell ls) := by simp [spell]

@[simp] theorem spell_append (ls ms : List Lexeme) : spell (ls ++ ms) = spell ls ++ spell ms := by
  simp [spell]

/-! ### Reading token by token -/

theorem Token.text_eq_cons (t : Token) : ∃ c cs, t.text = c :: cs ∧ isBlank c = false := by
  cases t with
  | bool b => cases b <;> exact ⟨_, _, rfl, rfl⟩
  | number n =>
    obtain ⟨c, cs, htext, hc⟩ := n.text_eq_cons
    cases hb : isBlank c with
    | false => exact ⟨c, cs, htext, hb⟩
    | true =>
      simp only [isBlank, Bool.or_eq_true, beq_iff_eq] at hb
      obtain ((rfl | rfl) | rfl) | rfl := hb <;> exact absurd hc (by decide)
  | string s => cases s <;> exact ⟨_, _, rfl, rfl⟩
  | _ => exact ⟨_, _, rfl, rfl⟩

/-- From a state a text is read to its end as a value. -/
def Reads (r : Reader) (cs : List Char) (v : Json) : Prop :=
  ∃ ts, (∀ fuel, cs.length ≤ fuel → Token.scanAll? fuel cs = some ts) ∧ r.run? ts = some v

theorem reads_complete (v : Json) {blanks : List Char} (hb : ∀ c ∈ blanks, Token.isBlank c) :
    Reads (.complete v) blanks v := by
  refine ⟨[], fun fuel _ => ?_, rfl⟩
  cases fuel with
  | zero => simpa [Token.scanAll?] using hb
  | succ fuel =>
    have hdrop : blanks.dropWhile Token.isBlank = [] := by
      rw [← List.append_nil blanks, List.dropWhile_append_of_pos hb]
      rfl
    simp [Token.scanAll?, hdrop]

theorem Reads.step {r q : Reader} {t : Token} {blanks cs : List Char} {v : Json}
    (hb : ∀ c ∈ blanks, Token.isBlank c) (hstep : r.step? t = some q)
    (ht : ∀ n, t = .number n → n.IsPlain ∧ Token.StopsNumber cs) (h : Reads q cs v) :
    Reads r (blanks ++ (t.text ++ cs)) v := by
  obtain ⟨ts, hscan, hrun⟩ := h
  refine ⟨t :: ts, fun fuel hfuel => ?_, by simp [Reader.run?, hstep, hrun]⟩
  have htoken := Token.scan?_text ht
  obtain ⟨c, text, htext, hc⟩ := t.text_eq_cons
  rw [htext, List.cons_append] at htoken hfuel ⊢
  simp only [List.length_append, List.length_cons] at hfuel
  obtain ⟨fuel, rfl⟩ : ∃ k, fuel = k + 1 := ⟨fuel - 1, by omega⟩
  have hdrop : (blanks ++ c :: (text ++ cs)).dropWhile Token.isBlank = c :: (text ++ cs) := by
    rw [List.dropWhile_append_of_pos hb, List.dropWhile_cons_of_neg (by simp [hc])]
  simp only [Token.scanAll?, hdrop, htoken, hscan fuel (by omega), Option.map_some]

/-- A token that is no number may have anything behind it. -/
theorem Reads.mark {r q : Reader} {t : Token} {blanks cs : List Char} {v : Json}
    (hb : ∀ c ∈ blanks, Token.isBlank c) (hstep : r.step? t = some q)
    (ht : ∀ n, t ≠ .number n) (h : Reads q cs v) : Reads r (blanks ++ (t.text ++ cs)) v :=
  h.step hb hstep fun n hn => absurd hn (ht n)

theorem Reads.firstItem {stack : List Frame} {cs : List Char} {v : Json}
    (h : Reads (.value (.array [] :: stack)) cs v) : Reads (.firstItem stack) cs v := by
  obtain ⟨ts, hscan, hrun⟩ := h
  refine ⟨ts, hscan, ?_⟩
  cases ts with
  | nil => simp [Reader.run?] at hrun
  | cons t ts =>
    cases t with
    | endArray => simp [Reader.run?, Reader.step?, Reader.startValue?] at hrun
    | _ => exact hrun

/-! ### Reading value by value -/

theorem stopsNumber_append {blanks : List Char} (hb : ∀ c ∈ blanks, Token.isBlank c)
    {cs : List Char} (h : Token.StopsNumber cs) : Token.StopsNumber (blanks ++ cs) := by
  cases blanks with
  | nil => exact h
  | cons b blanks =>
    rintro c ⟨⟩
    have hblank := hb b List.mem_cons_self
    simp only [Token.isBlank, Bool.or_eq_true, beq_iff_eq] at hblank
    obtain ((rfl | rfl) | rfl) | rfl := hblank <;> decide

/-- Written at any depth, a value is read where one has to follow. -/
def ReadsBack (l : Layout) (v : Json) : Prop :=
  ∀ depth lead stack cs w, (∀ c ∈ lead, Token.isBlank c) → Token.StopsNumber cs →
    Reads (Reader.close v stack) cs w →
    Reads (.value stack) (spell (lexemes l depth lead v) ++ cs) w

theorem readsBack_token {l : Layout} {v : Json} (t : Token)
    (hv : ∀ depth lead, lexemes l depth lead v = [(lead, t)])
    (hstep : ∀ stack, Reader.startValue? stack t = some (Reader.close v stack))
    (ht : ∀ n, t = .number n → n.IsPlain) : ReadsBack l v := by
  intro depth lead stack cs w hlead hcs h
  rw [hv, spell_cons, spell_nil, List.append_nil, List.append_assoc]
  exact h.step hlead (hstep stack) fun n hn => ⟨ht n hn, hcs⟩

/-- The items behind the first are read one after the other. -/
theorem readsBack_items {l : Layout} (hl : l.IsBlank) {vs : List Json}
    (hvs : ∀ v ∈ vs, ReadsBack l v) (depth : Nat) (held : List Json) (stack : List Frame)
    {cs : List Char} {w : Json} (hcs : Token.StopsNumber cs)
    (h : Reads (.afterItem (vs.reverse ++ held) stack) cs w) :
    Reads (.afterItem held stack) (spell (itemLexemes l depth vs) ++ cs) w ∧
      Token.StopsNumber (spell (itemLexemes l depth vs) ++ cs) := by
  induction vs generalizing held with
  | nil => exact ⟨h, hcs⟩
  | cons v vs ih =>
    rw [List.reverse_cons, List.append_assoc] at h
    obtain ⟨hrest, hstop⟩ := ih (fun u hu => hvs u (List.mem_cons_of_mem v hu)) (v :: held) h
    have hvalue := hvs v List.mem_cons_self depth (l.line depth) (.array held :: stack) _ w
      (hl.line depth) hstop hrest
    simp only [itemLexemes, List.cons_append, spell_cons, spell_append, List.append_assoc]
    refine ⟨hvalue.mark (by simp) rfl (by simp), ?_⟩
    rintro c ⟨⟩
    decide

theorem readsBack_members {l : Layout} (hl : l.IsBlank) {ms : List (Option String × Json)}
    (hms : ∀ m ∈ ms, ReadsBack l m.2) (depth : Nat) (held : List (Option String × Json))
    (stack : List Frame) {cs : List Char} {w : Json} (hcs : Token.StopsNumber cs)
    (h : Reads (.afterMember (ms.reverse ++ held) stack) cs w) :
    Reads (.afterMember held stack) (spell (memberLexemes l depth ms) ++ cs) w ∧
      Token.StopsNumber (spell (memberLexemes l depth ms) ++ cs) := by
  induction ms generalizing held with
  | nil => exact ⟨h, hcs⟩
  | cons m ms ih =>
    rw [List.reverse_cons, List.append_assoc] at h
    obtain ⟨hrest, hstop⟩ := ih (fun u hu => hms u (List.mem_cons_of_mem m hu)) (m :: held) h
    have hvalue := hms m List.mem_cons_self depth l.gap (.object held m.1 :: stack) _ w
      hl.gap hstop hrest
    simp only [memberLexemes, List.cons_append, spell_cons, spell_append, List.append_assoc]
    refine ⟨?_, ?_⟩
    · refine Reads.mark (q := .key held stack) (by simp) rfl (by simp) ?_
      refine Reads.mark (q := .afterKey held m.1 stack) (hl.line depth) rfl (by simp) ?_
      exact hvalue.mark (by simp) rfl (by simp)
    · rintro c ⟨⟩
      decide

theorem readsBack_array {l : Layout} (hl : l.IsBlank) {items : List Json}
    (h : ∀ v ∈ items, ReadsBack l v) : ReadsBack l (.array items) := by
  intro depth lead stack cs w hlead hcs hclose
  cases items with
  | nil =>
    simp only [lexemes, spell_cons, spell_nil, List.append_nil, List.append_assoc]
    refine Reads.mark (q := .firstItem stack) hlead rfl (by simp) ?_
    exact hclose.mark (by simp) rfl (by simp)
  | cons v vs =>
    have hend : Reads (.afterItem (vs.reverse ++ [v]) stack)
        (l.line depth ++ (Token.text .endArray ++ cs)) w := by
      refine hclose.mark (hl.line depth) ?_ (by simp)
      simp [Reader.step?]
    have hstop : Token.StopsNumber (l.line depth ++ (Token.text .endArray ++ cs)) := by
      refine stopsNumber_append (hl.line depth) ?_
      rintro c ⟨⟩
      decide
    obtain ⟨hitems, hstop⟩ := readsBack_items hl (fun u hu => h u (List.mem_cons_of_mem v hu))
      (depth + 1) [v] stack hstop hend
    have hfirst := h v List.mem_cons_self (depth + 1) (l.line (depth + 1)) (.array [] :: stack) _ w
      (hl.line _) hstop hitems
    simp only [lexemes, List.cons_append, spell_cons, spell_append, spell_nil, List.append_nil,
      List.append_assoc]
    exact hfirst.firstItem.mark hlead rfl (by simp)

theorem readsBack_object {l : Layout} (hl : l.IsBlank) {members : List (Option String × Json)}
    (h : ∀ m ∈ members, ReadsBack l m.2) : ReadsBack l (.object members) := by
  intro depth lead stack cs w hlead hcs hclose
  cases members with
  | nil =>
    simp only [lexemes, spell_cons, spell_nil, List.append_nil, List.append_assoc]
    refine Reads.mark (q := .firstKey stack) hlead rfl (by simp) ?_
    exact hclose.mark (by simp) rfl (by simp)
  | cons m ms =>
    have hend : Reads (.afterMember (ms.reverse ++ [m]) stack)
        (l.line depth ++ (Token.text .endObject ++ cs)) w := by
      refine hclose.mark (hl.line depth) ?_ (by simp)
      simp [Reader.step?]
    have hstop : Token.StopsNumber (l.line depth ++ (Token.text .endObject ++ cs)) := by
      refine stopsNumber_append (hl.line depth) ?_
      rintro c ⟨⟩
      decide
    obtain ⟨hmembers, hstop⟩ := readsBack_members hl
      (fun u hu => h u (List.mem_cons_of_mem m hu)) (depth + 1) [m] stack hstop hend
    have hfirst := h m List.mem_cons_self (depth + 1) l.gap (.object [] m.1 :: stack) _ w
      hl.gap hstop hmembers
    simp only [lexemes, List.cons_append, spell_cons, spell_append, spell_nil, List.append_nil,
      List.append_assoc]
    refine Reads.mark (q := .firstKey stack) hlead rfl (by simp) ?_
    refine Reads.mark (q := .afterKey [] m.1 stack) (hl.line _) rfl (by simp) ?_
    exact hfirst.mark (by simp) rfl (by simp)

theorem Every.readsBack {l : Layout} (hl : l.IsBlank) {v : Json} (h : v.Every Numeral.IsPlain) :
    ReadsBack l v := by
  induction h with
  | null => exact readsBack_token .null (by simp [lexemes]) (fun _ => rfl) (by simp)
  | bool b => exact readsBack_token (.bool b) (by simp [lexemes]) (fun _ => rfl) (by simp)
  | @number n h =>
    refine readsBack_token (.number n) (by simp [lexemes]) (fun _ => rfl) fun m hm => ?_
    cases hm
    exact h
  | text s =>
    exact readsBack_token (.string (some s)) (by simp [Json.text, lexemes]) (fun _ => rfl) (by simp)
  | array _ ih => exact readsBack_array hl ih
  | record _ ih =>
    refine readsBack_object hl fun m hm => ?_
    obtain ⟨m', hm', rfl⟩ := List.mem_map.mp hm
    exact ih m' hm'

/-- The text of a value of plain numbers is read as the value, also with blanks behind it. -/
theorem Every.ofText?_write {l : Layout} (hl : l.IsBlank) {v : Json}
    (h : v.Every Numeral.IsPlain) {blanks : List Char} (hb : ∀ c ∈ blanks, Token.isBlank c) :
    ofText? (v.write l ++ .ofList blanks) = some v := by
  have hstop : Token.StopsNumber blanks := by
    have hnil : Token.StopsNumber [] := by simp [Token.StopsNumber]
    simpa using stopsNumber_append hb hnil
  obtain ⟨ts, hscan, hrun⟩ := h.readsBack hl 0 [] [] blanks v (by simp) hstop (reads_complete v hb)
  have htext : (v.write l ++ .ofList blanks).toList = spell (lexemes l 0 [] v) ++ blanks := by
    simp [write, spell]
  rw [ofText?, htext, Token.ofText?, hscan _ Nat.le.refl]
  exact hrun

end Json
end ProcessLint
