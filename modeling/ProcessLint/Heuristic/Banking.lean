import ProcessLint.Finding
import ProcessLint.Heuristic.Scan
import ProcessLint.Text.Blank

/-! The compliance heuristics of the banking vertical. Each looks for words anywhere in a
definition; none consults its structure. -/
namespace ProcessLint
namespace Heuristic

inductive Banking
  /-- Card data is protected and handled by payment actors. -/
  | cardData
  /-- Wire transfers are approved twice and their messages validated. -/
  | wireTransfer
  /-- Money movement is screened. -/
  | fraudScreening
  /-- Duties are segregated and modifications audited. -/
  | segregation
  /-- Identifiers are encrypted or masked. -/
  | sensitiveData
  /-- Transactions can be undone and debits are covered. -/
  | transactionIntegrity
  /-- Critical operations are logged. -/
  | auditTrail
  deriving DecidableEq, Repr

namespace Banking

def all : List Banking :=
  [.cardData, .wireTransfer, .fraudScreening, .segregation, .sensitiveData,
   .transactionIntegrity, .auditTrail]

theorem mem_all (h : Banking) : h ∈ all := by cases h <;> simp [all]

def name : Banking → String
  | .cardData => "pci-dss"
  | .wireTransfer => "wire-transfer"
  | .fraudScreening => "fraud-screening"
  | .segregation => "sox"
  | .sensitiveData => "sensitive-data"
  | .transactionIntegrity => "transaction-integrity"
  | .auditTrail => "audit-trail"

/-- What the codes of its findings start with. -/
def code : Banking → String
  | .cardData => "PCI-DSS"
  | .wireTransfer => "WIRE"
  | .fraudScreening => "FRAUD"
  | .segregation => "SOX"
  | .sensitiveData => "DATA"
  | .transactionIntegrity => "TXN"
  | .auditTrail => "AUDIT"

def codes : Banking → List String
  | .cardData => ["PCI-DSS-001", "PCI-DSS-002", "PCI-DSS-003"]
  | .wireTransfer => ["WIRE-001", "WIRE-002"]
  | .fraudScreening => ["FRAUD-001", "FRAUD-002"]
  | .segregation => ["SOX-001", "SOX-002"]
  | .sensitiveData => ["DATA-001"]
  | .transactionIntegrity => ["TXN-001", "TXN-002"]
  | .auditTrail => ["AUDIT-001"]

def description : Banking → String
  | .cardData => "Card data must be protected and processed by payment actors"
  | .wireTransfer => "Wire transfers need dual authorization and SWIFT validation"
  | .fraudScreening => "High-risk transactions need fraud and AML screening"
  | .segregation => "Segregation of duties and audited data modification"
  | .sensitiveData => "Sensitive identifiers must be encrypted or masked"
  | .transactionIntegrity => "Transactions need rollback logic and debits need balance checks"
  | .auditTrail => "Critical operations must be audited"

def maxSeverity : Banking → Severity
  | .cardData | .fraudScreening => .error
  | _ => .warning

def advise (h : Banking) (code : String) (severity : Severity) (message suggestion : String) :
    Finding :=
  ⟨code, h.name, severity, message, some suggestion⟩

def when (holds : Bool) (findings : List Finding) : List Finding := if holds then findings else []

@[simp] theorem mem_when {holds : Bool} {findings : List Finding} {f : Finding} :
    f ∈ when holds findings ↔ holds = true ∧ f ∈ findings := by
  cases holds <;> simp [when]

/-- One finding for each word that occurs, in the order of the list. -/
def each (s : Scan) (needles : List String) (finding : String → Finding) : List Finding :=
  (needles.filter s.has).map finding

@[simp] theorem mem_each {s : Scan} {needles : List String} {finding : String → Finding}
    {f : Finding} :
    f ∈ each s needles finding ↔ ∃ n ∈ needles, s.has n = true ∧ finding n = f := by
  simp [each, and_assoc]

/-- The list between brackets behind an `Actors:` header that the text starts with, when it is
closed on the same line. -/
def actorsHere? (text : List Char) : Option (List Char) :=
  if "Actors".toList.isPrefixOf text then
    match Text.trimStart (text.drop "Actors".length) with
    | ':' :: r =>
      match Text.trimStart r with
      | '[' :: body =>
        let inner := body.takeWhile fun c => c != ']' && c != '\n'
        if body[inner.length]? = some ']' then some inner else none
      | _ => none
    | _ => none
  else none

def actors? : List Char → Option (List Char)
  | [] => none
  | c :: r =>
    match actorsHere? (c :: r) with
    | some inner => some inner
    | none => actors? r

/-- The first list of actors names one actor at most. -/
def singleApprover (s : Scan) : Bool :=
  (actors? s.text).any fun inner => (Text.pieces (· == ',') inner).length < 2

def check (h : Banking) (s : Scan) : List Finding :=
  match h with
  | .cardData =>
    when ((s.hasAny ["CardNumber", "PAN"] || s.hasInAnyCase "card_number") &&
        !s.hasInAnyCase "encrypted" && !s.hasInAnyCase "token")
      [h.advise "PCI-DSS-001" .error "Card numbers must be encrypted or tokenized"
        "Add 'encrypted: true' or use tokenization for card data"] ++
    when (s.hasAny ["CVV", "CVC"] && (s.hasInAnyCase "persist" || s.hasInAnyCase "store"))
      [h.advise "PCI-DSS-002" .error "CVV/CVC data must never be stored after authorization"
        "Remove CVV storage; collect only for authorization"] ++
    when (!s.hasAny ["PaymentProcessor", "PaymentGateway"])
      (each s ["ProcessPayment", "AuthorizeCard", "CapturePayment"] fun operation =>
        h.advise "PCI-DSS-003" .warning
          ("Payment operation '" ++ operation ++
            "' should be performed by PaymentProcessor or PaymentGateway")
          "Assign to PaymentProcessor or PaymentGateway actor")
  | .wireTransfer =>
    when (s.hasAny ["WireTransfer", "SWIFT", "Fedwire"] && s.has "Approve" && singleApprover s)
      [h.advise "WIRE-001" .warning "Wire transfers typically require dual authorization"
        "Consider adding second approver for high-value transfers"] ++
    when (s.hasAny ["SWIFT", "MT103", "MT202"] && !s.hasAny ["Validate", "Verify"])
      [h.advise "WIRE-002" .warning "SWIFT messages should include validation step"
        "Add validation for SWIFT message format and completeness"]
  | .fraudScreening =>
    when (!s.hasAny ["FraudCheck", "Screen", "Fraud"])
      (each s ["Transfer", "Payment", "Withdrawal"] fun kind =>
        h.advise "FRAUD-001" .warning
          ("Transaction type '" ++ kind ++ "' should include fraud screening")
          "Add FraudDetectionEngine or FraudAnalyst to actors") ++
    when (s.hasAny ["International", "Cross-Border"] && s.has "Transfer" &&
        !s.hasAny ["AML", "Sanction", "Screen"])
      [h.advise "FRAUD-002" .error
        "International transfers must include AML/sanctions screening"
        "Add sanctions screening and AML checks"]
  | .segregation =>
    when (s.has "Process" && s.has "CreateTransaction" && s.has "ApproveTransaction")
      [h.advise "SOX-001" .info "Verify segregation of duties: creator should not be approver"
        "Ensure different actors for transaction creation and approval"] ++
    when (s.hasAny ["Delete", "Update"] && !s.hasAny ["Audit", "Log"])
      [h.advise "SOX-002" .warning "Data modifications should be audited"
        "Add audit logging for compliance"]
  | .sensitiveData =>
    when (!(s.hasInAnyCase "encrypted" || s.hasInAnyCase "masked"))
      (each s ["SSN", "TIN", "AccountNumber", "RoutingNumber", "IBAN", "SWIFT"] fun field =>
        h.advise "DATA-001" .warning
          ("Sensitive field '" ++ field ++ "' should be encrypted or masked")
          "Add encryption or masking to sensitive data fields")
  | .transactionIntegrity =>
    when (s.hasAny ["Transaction", "Transfer"] && !s.hasAny ["Rollback", "Compensate"])
      [h.advise "TXN-001" .info
        "Consider adding rollback/compensation logic for transaction integrity"
        "Add error handling with rollback or compensating transactions"] ++
    when (s.hasAny ["Debit", "Withdraw"] && !s.hasAny ["CheckBalance", "ValidateBalance"])
      [h.advise "TXN-002" .warning "Debit operations should validate sufficient balance"
        "Add balance validation before debit"]
  | .auditTrail =>
    when (!s.hasAny ["Audit", "Log"])
      (each s ["Transfer", "Approve", "Authorize", "Update", "Delete"] fun operation =>
        h.advise "AUDIT-001" .warning
          ("Critical operation '" ++ operation ++ "' should have audit logging")
          "Add audit trail for regulatory compliance")

end Banking

def scan (hs : List Banking) (text : String) : List Finding :=
  let s := Scan.ofText text
  hs.flatMap fun h => h.check s

end Heuristic
end ProcessLint
