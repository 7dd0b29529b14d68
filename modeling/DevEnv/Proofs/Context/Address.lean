import DevEnv.Context
import DevEnv.Proofs.Text.Split
import Mathlib.Data.List.TakeWhile

/-! The host that the address of a server leads to. It is the one that the address names, if the address has a scheme
or holds nothing that looks like the end of one. Otherwise it is looked for behind that, be it in a query.
In any case it is a text by which a host can be called. -/
namespace DevEnv.Context
open Text (FirstAt afterChars afterChars_eq_some_iff afterChars_eq_none_iff firstAt_of_notMem)

/-- A scheme or a host: not empty, and without the characters that stand between the parts of an address. -/
structure IsPart (s : String) : Prop where
  nonempty : s ≠ ""
  slashless : '/' ∉ s.toList
  colonless : ':' ∉ s.toList

/-- The parts of an address. Only the host has to be there. -/
structure Address where
  scheme : Option String := none
  host : String
  port : Option String := none
  /-- What stands behind the slash after the host and the port. -/
  rest : Option String := none
  scheme_isPart : ∀ s ∈ scheme, IsPart s
  host_isPart : IsPart host
  port_slashless : ∀ p ∈ port, '/' ∉ p.toList

namespace Address

/-- The address from its host on. -/
def located (a : Address) : List Char :=
  a.host.toList ++ (a.port.elim [] (fun p => ':' :: p.toList) ++ a.rest.elim [] (fun r => '/' :: r.toList))

def text (a : Address) : String :=
  String.ofList (a.scheme.elim [] (fun s => s.toList ++ schemeMark) ++ a.located)

end Address

/-- A host ends here: with the text, or before a slash or a colon. -/
def Ends (cs : List Char) : Prop := ∀ c, cs.head? = some c → c = '/' ∨ c = ':'

/-- A text leads to the host that it begins with, and to the own host if it begins with none. -/
inductive Leads : List Char → String → Prop where
  | host {host : String} {behind : List Char} (part : IsPart host) (ends : Ends behind) :
    Leads (host.toList ++ behind) host
  | own {cs : List Char} (ends : Ends cs) : Leads cs "localhost"

/-- The host that a text begins with, as it is read. -/
def leading (cs : List Char) : String :=
  let host := cs.takeWhile fun c => c ≠ '/' && c ≠ ':'
  if host.isEmpty then "localhost" else String.ofList host

variable {c : Context} {cs : List Char} {host host' : String}

section Leads

theorem Leads.isPart (h : Leads cs host) : IsPart host := by
  cases h with
  | host part _ => exact part
  | own _ => constructor <;> decide

/-- The host that a text begins with is read to its end. -/
theorem takeWhile_of_ends {front behind : List Char} (hs : '/' ∉ front) (hc : ':' ∉ front) (h : Ends behind) :
    (front ++ behind).takeWhile (fun c => c ≠ '/' && c ≠ ':') = front := by
  have hfront : ∀ c ∈ front, (c ≠ '/' && c ≠ ':') = true := by
    intro c hmem
    simp only [Bool.and_eq_true, decide_eq_true_eq]
    exact ⟨ne_of_mem_of_not_mem hmem hs, ne_of_mem_of_not_mem hmem hc⟩
  rw [List.takeWhile_append_of_pos hfront]
  cases behind with
  | nil => simp
  | cons x behind =>
    have hx : x = '/' ∨ x = ':' := h x rfl
    rw [List.takeWhile_cons_of_neg, List.append_nil]
    rcases hx with rfl | rfl <;> decide

theorem Leads.eq_leading (h : Leads cs host) : host = leading cs := by
  cases h with
  | host part ends =>
    rw [leading, takeWhile_of_ends part.slashless part.colonless ends, String.ofList_toList]
    apply Eq.symm
    apply if_neg
    simpa using part.nonempty
  | own ends =>
    have hnone : cs.takeWhile (fun c => c ≠ '/' && c ≠ ':') = [] :=
      takeWhile_of_ends List.not_mem_nil List.not_mem_nil ends
    rw [leading, hnone]
    rfl

theorem Leads.unique (h : Leads cs host) (h' : Leads cs host') : host = host' :=
  h.eq_leading.trans h'.eq_leading.symm

theorem ends_dropWhile (cs : List Char) : Ends (cs.dropWhile fun c => c ≠ '/' && c ≠ ':') := by
  intro c hc
  have hstop := List.head?_dropWhile_not (fun c => c ≠ '/' && c ≠ ':') cs
  rw [hc] at hstop
  simpa only [Bool.and_eq_false_iff, decide_eq_false_iff_not, not_not] using hstop

/-- Every text leads somewhere. -/
theorem leads_leading (cs : List Char) : Leads cs (leading cs) := by
  have hcs := List.takeWhile_append_dropWhile (p := fun c => c ≠ '/' && c ≠ ':') (l := cs)
  unfold leading
  dsimp only
  split
  · next hempty =>
    rw [List.isEmpty_iff.1 hempty, List.nil_append] at hcs
    rw [← hcs]
    exact .own (ends_dropWhile cs)
  · next hne =>
    have hpass : ∀ c ∈ cs.takeWhile (fun c => c ≠ '/' && c ≠ ':'), c ≠ '/' ∧ c ≠ ':' := by
      intro c hc
      simpa using List.mem_takeWhile_imp hc
    have part : IsPart (String.ofList (cs.takeWhile fun c => c ≠ '/' && c ≠ ':')) := by
      constructor
      · simpa [← String.toList_inj] using hne
      · rw [String.toList_ofList]
        intro hs
        exact (hpass _ hs).1 rfl
      · rw [String.toList_ofList]
        intro hs
        exact (hpass _ hs).2 rfl
    have hlead := Leads.host part (ends_dropWhile cs)
    rwa [String.toList_ofList, hcs] at hlead

end Leads

namespace Address
variable {a : Address}

theorem leads_located (a : Address) : Leads a.located a.host := by
  apply Leads.host a.host_isPart
  intro c hc
  cases hp : a.port with
  | some p =>
    simp only [hp, Option.elim_some, List.cons_append, List.head?_cons, Option.some.injEq] at hc
    exact .inr hc.symm
  | none =>
    cases hr : a.rest with
    | some r =>
      simp only [hp, hr, Option.elim_none, Option.elim_some, List.nil_append, List.head?_cons,
        Option.some.injEq] at hc
      exact .inl hc.symm
    | none => simp [hp, hr] at hc

/-- Behind the scheme of an address stands its host. -/
theorem afterChars_text_of_scheme {s : String} (h : a.scheme = some s) :
    afterChars schemeMark a.text.toList = some a.located := by
  rw [text, String.toList_ofList, h, Option.elim_some, afterChars_eq_some_iff]
  exact ⟨s.toList, firstAt_of_notMem (a.scheme_isPart s h).colonless _ _⟩

theorem toList_text_of_no_scheme (h : a.scheme = none) : a.text.toList = a.located := by
  rw [text, String.toList_ofList, h, Option.elim_none, List.nil_append]

end Address

/-- The host is looked for behind what looks like a scheme, or else from the beginning on. -/
theorem leads_sshHost {address : String} (h : c.address = some address) :
    Leads ((afterChars schemeMark address.toList).getD address.toList) c.sshHost := by
  rw [sshHost, h]
  exact leads_leading _

theorem isPart_sshHost (c : Context) : IsPart c.sshHost := by
  cases h : c.address with
  | some address => exact (leads_sshHost h).isPart
  | none =>
    rw [sshHost, h]
    constructor <;> decide

/-- SSH goes to a host that can be called by its name. It is the own host where there is no address, and the one that
an address names which has a scheme or in which no mark of a scheme occurs. Where one occurs later, it is the one that is
named behind the first of them. -/
theorem sshHost_of_address (c : Context) :
    IsPart c.sshHost ∧ (c.address = none → c.sshHost = "localhost") ∧
      ∀ a : Address, c.address = some a.text →
        (a.scheme.isSome ∨ ¬ schemeMark <:+: a.located → c.sshHost = a.host) ∧
          ∀ front behind, a.scheme = none → FirstAt schemeMark a.located front behind → Leads behind c.sshHost := by
  refine ⟨isPart_sshHost c, fun hnone => by rw [sshHost, hnone], fun a ha => ⟨?_, ?_⟩⟩
  · intro h
    have hleads := leads_sshHost ha
    cases hs : a.scheme with
    | some s =>
      rw [Address.afterChars_text_of_scheme hs, Option.getD_some] at hleads
      exact hleads.unique a.leads_located
    | none =>
      have hfree : ¬ schemeMark <:+: a.located := by simpa [hs] using h
      rw [Address.toList_text_of_no_scheme hs, afterChars_eq_none_iff.2 hfree, Option.getD_none] at hleads
      exact hleads.unique a.leads_located
  · intro front behind hs hfirst
    have hleads := leads_sshHost ha
    rw [Address.toList_text_of_no_scheme hs, afterChars_eq_some_iff.2 ⟨front, hfirst⟩, Option.getD_some] at hleads
    exact hleads

/-- An address whose query holds another address. -/
def proxied : Address where
  host := "proxy.example.com"
  rest := some "fetch?url=http://origin.example.com/"
  scheme_isPart := by simp
  host_isPart := by constructor <;> decide
  port_slashless := by simp

/-- The same address with a scheme and a port. -/
def proxiedWithScheme : Address where
  __ := proxied
  scheme := some "https"
  port := some "8443"
  scheme_isPart := by
    intro s hs
    obtain rfl : "https" = s := Option.some.inj hs
    constructor <;> decide
  port_slashless := by
    intro p hp
    obtain rfl : "8443" = p := Option.some.inj hp
    decide

theorem sshHost_of_address_withScheme :
    let c : Context :=
      { name := "lab"
        address := some "https://proxy.example.com:8443/fetch?url=http://origin.example.com/" }
    c.address = some proxiedWithScheme.text ∧ IsPart c.sshHost ∧ c.sshHost = "proxy.example.com" := by
  intro c
  have haddress : c.address = some proxiedWithScheme.text := by decide
  have h := sshHost_of_address c
  exact ⟨haddress, h.1, (h.2.2 proxiedWithScheme haddress).1 (.inl rfl)⟩

/-- Without a scheme the host of the address in the query is taken for that of the whole. -/
theorem query_taken_for_host :
    proxied.text = "proxy.example.com/fetch?url=http://origin.example.com/" ∧
      ∀ c : Context, c.address = some proxied.text →
        c.sshHost = "origin.example.com" ∧ c.sshHost ≠ proxied.host := by
  have htext : proxied.text = "proxy.example.com/fetch?url=http://origin.example.com/" := by decide
  refine ⟨htext, fun c hc => ?_⟩
  have hhost : c.sshHost = "origin.example.com" := by
    rw [sshHost, hc, htext]
    decide
  exact ⟨hhost, by rw [hhost]; decide⟩

end DevEnv.Context
