import Ace3.Analysis.Observable
import Ace3.EmailArchive.LocalArchive
import Ace3.Lib.CaseMapping

/-!
# Observable Values

`create_observable` of `saq/observables/generator.py` with the `value` setters of the registered
observable types (`saq/observables`), `normalize_email_address` of `saq/email.py` and the functions
of `saq/constants.py` that take composite values apart. What the setters keep besides the value is
left out.
-/

namespace Ace3.Observables

open Analysis (isSpace)
open Lib.Trim Lib.CaseMapping

/-! ## §1 Text -/

abbrev Text := List Char

def strip (text : Text) : Text := trimEnds isSpace isSpace text

def split (sep : Char) : ℕ → Text → List Text
  | 0, text => [text]
  | maxsplit + 1, text =>
    match text.dropWhile (· ≠ sep) with
    | [] => [text]
    | _ :: rest => text.takeWhile (· ≠ sep) :: split sep maxsplit rest

def rsplit (sep : Char) (maxsplit : ℕ) (text : Text) : List Text :=
  ((split sep maxsplit text.reverse).map List.reverse).reverse

def lastSegment (sep : Char) (text : Text) : Text :=
  (text.splitOn sep).getLast (List.splitOn_ne_nil sep text)

/-- `[a-fA-F0-9]`. -/
def isHex (c : Char) : Bool :=
  c.isDigit || ('a' ≤ c && c ≤ 'f') || ('A' ≤ c && c ≤ 'F')

/-- The groups of `RE_MAC`: pairs of hex digits, each followed by anything else. -/
def macParts : ℕ → Text → Option (List Text)
  | 0, [] => some []
  | groups + 1, first :: second :: rest =>
    if isHex first && isHex second then
      (macParts groups (rest.dropWhile (!isHex ·))).map ([first, second] :: ·)
    else none
  | _, _ => none

/-- `IPv4Address._parse_octet` accepts a part of an address. -/
def isOctet (octet : Text) : Bool :=
  octet ≠ [] && octet.all Char.isDigit && octet.length ≤ 3 &&
    (octet = ['0'] || octet.head? ≠ some '0') &&
    octet.foldl (fun n c => 10 * n + (c.toNat - '0'.toNat)) 0 ≤ 255

/-- `ipaddress.IPv4Address(text)` does not raise. -/
def isIPv4Address (text : Text) : Bool :=
  (text.splitOn '.').length = 4 && (text.splitOn '.').all isOctet

/-! ## §2 Email addresses -/

/-- The characters that `str.lower` leaves alone and does not see past, as far as they matter
here. -/
def isPlain (c : Char) : Bool := isSpace c || c ∈ ['<', '>', '@', '|']

def replaceDouble (c : Char) : Text → Text
  | first :: second :: rest =>
    if first = c ∧ second = c then c :: replaceDouble c rest
    else first :: replaceDouble c (second :: rest)
  | text => text

def hasDouble (c : Char) : Text → Bool
  | first :: second :: rest => (first = c && second = c) || hasDouble c (second :: rest)
  | _ => false

/-- The loop that replaces `<<` and `>>` as long as both are there. -/
def fixDoubledAngles : ℕ → Text → Text
  | 0, text => text
  | fuel + 1, text =>
    if hasDouble '<' text && hasDouble '>' text then
      fixDoubledAngles fuel (replaceDouble '>' (replaceDouble '<' text))
    else text

/-- The loops that drop `<` from the front and `>` from the end. -/
def dropAngles (text : Text) : Text := trimEnds (· == '<') (· == '>') text

section NormalizeEmailAddress

variable (lower : Text → Text) (parseaddr : Text → Text × Text)

/-- The address that `normalize_email_address` goes on with: the one `parseaddr` finds, at the
second attempt behind fewer angle brackets. -/
def findAddress (emailAddress : Text) : Text :=
  let (_, address) := parseaddr emailAddress
  if address = [] then (parseaddr (fixDoubledAngles emailAddress.length emailAddress)).2
  else address

def normalizeEmailAddress (emailAddress : Text) : Option Text :=
  let address := findAddress parseaddr emailAddress
  if address = [] then none
  else
    let address := dropAngles (strip address)
    if address = [] then none else some (lower address)

end NormalizeEmailAddress

structure Libraries where
  /-- `str.isdigit` on one character. -/
  isDigit : Char → Bool
  /-- `int(text)` does not raise. -/
  isInt : Text → Bool
  /-- `ip_address(text)` does not raise. -/
  ipAddress : Text → Bool
  ipAddress_empty : ipAddress [] = false
  /-- `bool(validators.domain(text))`. -/
  domain : Text → Bool
  domain_empty : domain [] = false
  /-- A domain is one without the white space around it. -/
  domain_strip : ∀ text, domain text = true → domain (strip text) = true
  /-- `str.lower`. -/
  lowering : Lowering Char isPlain
  /-- `parseaddr`: a name and an address, both empty if the text cannot be parsed. -/
  parseaddr : Text → Text × Text
  /-- `parseaddr` finds an address it has found before in itself, up to the white space and the
  angle brackets around it. -/
  parseaddr_again : ∀ text address,
    normalizeEmailAddress lowering.lower parseaddr text = some address →
      ∀ again, again = address ∨ again = strip address →
        dropAngles (strip (parseaddr again).2) = dropAngles (strip again)
  /-- `parseaddr` finds nothing but white space and angle brackets where there is nothing else. -/
  parseaddr_blank : ∀ text : Text, (∀ c ∈ text, isSpace c = true ∨ c = '<' ∨ c = '>') →
    dropAngles (strip (parseaddr text).2) = []
  /-- There is no `|` in an address but from the text. -/
  parseaddr_bar : ∀ text, '|' ∈ (parseaddr text).2 → '|' ∈ text

namespace Libraries

variable (libs : Libraries)

def normalizeEmailAddress (emailAddress : Text) : Option Text :=
  Observables.normalizeEmailAddress libs.lowering.lower libs.parseaddr emailAddress

def findAddress (emailAddress : Text) : Text :=
  Observables.findAddress libs.parseaddr emailAddress

end Libraries

def normalizeMessageId (messageId : Text) : Text :=
  (EmailArchive.normalizeMessageId (String.ofList messageId)).toList

/-! ## §3 The registered types -/

/-- The keys of `OBSERVABLE_TYPE_MAPPING`. -/
inductive RegisteredType where
  | file | filePath | fileName | fileLocation | md5 | sha1 | sha256
  | hostname | asset | user | macAddress
  | ip | ipConversation | ipFullConversation | ipv4 | ipv4Conversation | ipv4FullConversation
  | fqdn | url | uriPath | userAgent
  | emailAddress | emailDelivery | emailSubject | emailXMailer | emailConversation | messageId
  | emailBody | emailHeader | emailFirstHopIp
  | snortSignature | avStreetname | idsStreetname | mutex | windowsRegistry | windowsService
  | awsAccessKeyId | awsPrincipalId | awsAccountId | awsUsername | awsInstanceId
  | awsSecurityGroupId | awsPrivateDnsName
  | indicator | yaraRule | yaraString | test
  | stringEps | stringHtml | stringJava | stringJs | stringOffice | stringPdf | stringPe
  | stringRtf | stringSwf | stringUnixShell | stringVbs | stringWindowsShell
  deriving DecidableEq

/-- The string of a type, as in `saq/constants.py`. -/
def RegisteredType.name : RegisteredType → String
  | file => "file" | filePath => "file_path" | fileName => "file_name"
  | fileLocation => "file_location" | md5 => "md5" | sha1 => "sha1" | sha256 => "sha256"
  | hostname => "hostname" | asset => "asset" | user => "user" | macAddress => "mac_address"
  | ip => "ip" | ipConversation => "ip_conversation" | ipFullConversation => "ip_full_conversation"
  | ipv4 => "ipv4" | ipv4Conversation => "ipv4_conversation"
  | ipv4FullConversation => "ipv4_full_conversation"
  | fqdn => "fqdn" | url => "url" | uriPath => "uri_path" | userAgent => "user_agent"
  | emailAddress => "email_address" | emailDelivery => "email_delivery"
  | emailSubject => "email_subject" | emailXMailer => "email_x_mailer"
  | emailConversation => "email_conversation" | messageId => "message_id"
  | emailBody => "email_body" | emailHeader => "email_header"
  | emailFirstHopIp => "email_first_hop_ip"
  | snortSignature => "snort_sig" | avStreetname => "av_streetname"
  | idsStreetname => "ids_streetname" | mutex => "mutex"
  | windowsRegistry => "windows_registry" | windowsService => "windows_service"
  | awsAccessKeyId => "aws_access_key_id" | awsPrincipalId => "aws_principal_id"
  | awsAccountId => "aws_account_id" | awsUsername => "aws_username"
  | awsInstanceId => "aws_instance_id" | awsSecurityGroupId => "aws_security_group_id"
  | awsPrivateDnsName => "aws_private_dns_name"
  | indicator => "indicator" | yaraRule => "yara_rule" | yaraString => "yara_string"
  | test => "test"
  | stringEps => "string_eps" | stringHtml => "string_html" | stringJava => "string_java"
  | stringJs => "string_js" | stringOffice => "string_office" | stringPdf => "string_pdf"
  | stringPe => "string_pe" | stringRtf => "string_rtf" | stringSwf => "string_swf"
  | stringUnixShell => "string_unix_shell" | stringVbs => "string_vbs"
  | stringWindowsShell => "string_windows_shell"

def RegisteredType.all : List RegisteredType :=
  [.hostname, .asset, .awsAccessKeyId, .awsPrincipalId, .awsAccountId, .awsUsername,
    .awsInstanceId, .awsSecurityGroupId, .awsPrivateDnsName, .emailAddress, .emailDelivery,
    .emailSubject, .emailXMailer, .emailConversation, .messageId, .emailBody, .emailHeader,
    .emailFirstHopIp, .file, .filePath, .fileName, .fileLocation, .md5, .sha1, .sha256,
    .snortSignature, .avStreetname, .idsStreetname, .indicator, .fqdn, .userAgent, .uriPath,
    .url, .ip, .ipConversation, .ipFullConversation, .ipv4, .ipv4Conversation,
    .ipv4FullConversation, .macAddress, .stringEps, .stringHtml, .stringJava, .stringJs,
    .stringOffice, .stringPdf, .stringPe, .stringRtf, .stringSwf, .stringUnixShell, .stringVbs,
    .stringWindowsShell, .test, .user, .mutex, .windowsRegistry, .windowsService, .yaraRule,
    .yaraString]

/-- `OBSERVABLE_TYPE_MAPPING[o_type]`. -/
def RegisteredType.ofName? (oType : String) : Option RegisteredType :=
  RegisteredType.all.find? fun type => type.name = oType

theorem RegisteredType.ofName?_name (type : RegisteredType) :
    RegisteredType.ofName? type.name = some type := by
  cases type <;> decide

inductive ConstructorError where
  | observableValueError (message : String)
  /-- `None.strip()` in `create_email_delivery`. -/
  | attributeError
  /-- The `assert file_path` of `FileObservable`. -/
  | assertionError
  deriving DecidableEq

/-- The constructor of a class on a value: what `value` is afterwards. -/
abbrev Constructor := Text → Except ConstructorError Text

def invalid (message : String) (newValue : Text) : Except ConstructorError Text :=
  .error (.observableValueError (message ++ String.ofList newValue))

def notValid (newValue : Text) (message : String) : Except ConstructorError Text :=
  .error (.observableValueError (String.ofList newValue ++ message))

/-- The setter of `Observable`. -/
def asGiven : Constructor := fun newValue => .ok newValue

def stripped : Constructor := fun newValue => .ok (strip newValue)

/-- The setters of `MD5Observable`, `SHA1Observable` and `SHA256Observable`. -/
def hashValue (algorithm : String) : Constructor := fun newValue =>
  let value := strip newValue
  if value.count '0' = value.length then invalid ("invalid " ++ algorithm ++ " ") value
  else .ok value

/-- `AWSAccountObservable`: `value.isdigit()` of the twelve characters. -/
def awsAccountValue (libs : Libraries) : Constructor := fun newValue =>
  let value := strip newValue
  if value.length ≠ 12 ∨ ¬ value.all libs.isDigit then
    notValid newValue " is not a valid AWS account ID"
  else .ok value

/-- `IPv4ConversationObservable` and `IPv4FullConversationObservable`. -/
def ipv4ConversationValue (sep : Char) (maxsplit : ℕ) (message : String) : Constructor :=
  fun newValue =>
    let value := strip newValue
    if (split sep maxsplit value).length = maxsplit then .ok value else invalid message newValue

/-- `IPObservable`, and `EmailFirstHopIPObservable`. -/
def ipValue (libs : Libraries) : Constructor := fun newValue =>
  let value := strip newValue
  if libs.ipAddress value then .ok value else notValid newValue " is not a valid ip address"

/-- `IPConversationObservable`. -/
def ipConversationValue (libs : Libraries) : Constructor := fun newValue =>
  let value := strip newValue
  match split '_' 2 value with
  | [source, dest] =>
    if source = [] ∨ dest = [] then invalid "invalid IP conversation value: " newValue
    else if libs.ipAddress source && libs.ipAddress dest then .ok value
    else invalid "invalid IP conversation value: " newValue
  | _ => invalid "invalid IP conversation value: " newValue

/-- `IPFullConversationObservable`. -/
def ipFullConversationValue (libs : Libraries) : Constructor := fun newValue =>
  let value := strip newValue
  match split '!' 4 value with
  | [source, sourcePort, dest, destPort] =>
    if source = [] ∨ sourcePort = [] ∨ dest = [] ∨ destPort = [] then
      invalid "invalid IP full conversation value: " newValue
    else if !(libs.ipAddress source && libs.ipAddress dest) then
      invalid "invalid IP full conversation value: " newValue
    else if libs.isInt sourcePort && libs.isInt destPort then .ok value
    else invalid "invalid IP full conversation value: " newValue
  | _ => invalid "invalid IP full conversation value: " newValue

/-- `IPv4Observable`: the check comes before the stripping. -/
def ipv4Value : Constructor := fun newValue =>
  if isIPv4Address newValue then .ok (strip newValue)
  else notValid newValue " is not a valid ipv4 address"

/-- `FQDNObservable`: the check comes before the stripping. -/
def fqdnValue (libs : Libraries) : Constructor := fun newValue =>
  if libs.domain newValue then .ok (strip newValue) else notValid newValue " is not a valid fqdn"

/-- `FileLocationObservable`. -/
def fileLocationValue : Constructor := fun newValue =>
  match split '@' 1 newValue with
  | [hostname, fullPath] =>
    if strip hostname = [] ∨ strip fullPath = [] then
      invalid "file_location missing hostname or path: " newValue
    else .ok newValue
  | _ => invalid "invalid file_location (missing @): " newValue

/-- `MacAddressObservable`. -/
def macAddressValue : Constructor := fun newValue =>
  if (macParts 6 newValue).isSome then .ok newValue
  else notValid newValue " does not parse as a mac address"

/-- `UserObservable`: the segment behind the last backslash is not stripped again. -/
def userValue : Constructor := fun newValue =>
  let value := strip newValue
  .ok (if '\\' ∈ value then lastSegment '\\' value else value)

def emailAddressValue (libs : Libraries) : Constructor := fun newValue =>
  if '@' ∉ newValue then .error (.observableValueError "missing @ in email address")
  else .ok ((libs.normalizeEmailAddress newValue).getD newValue)

/-- `EmailDeliveryObservable`: the address may normalize to `None`, which cannot be stripped. -/
def emailDeliveryValue (libs : Libraries) : Constructor := fun newValue =>
  match rsplit '|' 1 (strip newValue) with
  | [messageId, emailAddress] =>
    if messageId = [] ∨ emailAddress = [] then
      invalid "invalid format for email_delivery: " newValue
    else
      match libs.normalizeEmailAddress emailAddress with
      | none => .error .attributeError
      | some emailAddress =>
        .ok (strip (normalizeMessageId messageId) ++ '|' :: strip emailAddress)
  | _ => invalid "invalid format for email_delivery: " newValue

/-- `MessageIDObservable`. -/
def messageIdValue : Constructor := fun newValue =>
  if '@' ∉ newValue then notValid newValue " is not a valid message-id"
  else .ok (normalizeMessageId (strip newValue))

/-- `YaraStringObservable`: the constructor takes the stripped value apart. -/
def yaraStringValue : Constructor := fun newValue =>
  let value := strip newValue
  match rsplit ':' 1 value with
  | _ :: _ :: _ => .ok value
  | _ => .error (.observableValueError
      "expected format for yara string is rule:$string error: list index out of range")

def RegisteredType.construct (libs : Libraries) : RegisteredType → Constructor
  | .file => fun _ => .error .assertionError
  | .filePath | .fileName | .url | .emailBody | .emailHeader | .test
  | .stringEps | .stringHtml | .stringJava | .stringJs | .stringOffice | .stringPdf | .stringPe
  | .stringRtf | .stringSwf | .stringUnixShell | .stringVbs | .stringWindowsShell => asGiven
  | .hostname | .asset | .uriPath | .userAgent | .emailSubject | .emailXMailer
  | .emailConversation | .snortSignature | .avStreetname | .idsStreetname | .mutex
  | .windowsRegistry | .windowsService | .awsAccessKeyId | .awsPrincipalId | .awsUsername
  | .awsInstanceId | .awsSecurityGroupId | .awsPrivateDnsName | .indicator | .yaraRule => stripped
  | .md5 => hashValue "MD5"
  | .sha1 => hashValue "SHA1"
  | .sha256 => hashValue "SHA256"
  | .awsAccountId => awsAccountValue libs
  | .ipv4Conversation => ipv4ConversationValue '_' 2 "invalid IPv4 Convo: "
  | .ipv4FullConversation => ipv4ConversationValue ':' 4 "invalid IPv4 Full Convo: "
  | .ip | .emailFirstHopIp => ipValue libs
  | .ipConversation => ipConversationValue libs
  | .ipFullConversation => ipFullConversationValue libs
  | .ipv4 => ipv4Value
  | .fqdn => fqdnValue libs
  | .fileLocation => fileLocationValue
  | .macAddress => macAddressValue
  | .user => userValue
  | .emailAddress => emailAddressValue libs
  | .emailDelivery => emailDeliveryValue libs
  | .messageId => messageIdValue
  | .yaraString => yaraStringValue

/-! ## §4 `create_observable` -/

structure CreatedObservable where
  type : String
  value : Text
  deriving DecidableEq

/-- `create_observable`: an `ObservableValueError` becomes `None`, anything else is raised. -/
def createObservable (libs : Libraries) (oType : String) (oValue : Text) :
    Except ConstructorError (Option CreatedObservable) :=
  let construct :=
    match RegisteredType.ofName? oType with
    | none => asGiven
    | some type => type.construct libs
  match construct oValue with
  | .ok value => .ok (some ⟨oType, value⟩)
  | .error (.observableValueError _) => .ok none
  | .error error => .error error

end Ace3.Observables
