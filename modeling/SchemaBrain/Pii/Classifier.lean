import SchemaBrain.Core.Model

/-!
# The column classifier

`classify_column`: keyword rules on the column's name, without the name rule where a name
is no person's, and with fewer categories on integer foreign keys.
-/

namespace SchemaBrain.Pii

open Core

/-! ## Text -/

/-- The lowercase letter that `re.IGNORECASE` matches a character with. Four characters beyond
ASCII match a letter: dotted and dotless `i`, long `s` and the Kelvin sign. -/
def foldCase (c : Char) : Char :=
  if c.isUpper then Char.ofNat (c.toNat + 32)
  else if c.toNat = 0x130 ∨ c.toNat = 0x131 then 'i'
  else if c.toNat = 0x17f then 's'
  else if c.toNat = 0x212a then 'k'
  else c

/-- `str.lower()` as far as a comparison with ASCII text can tell. -/
def lowerChar (c : Char) : Char :=
  if c.isUpper then Char.ofNat (c.toNat + 32)
  else if c.toNat = 0x212a then 'k'
  else c

/-- `text.lower()`, compared with ASCII text. -/
def lower (text : String) : List Char := text.toList.map lowerChar

/-- `[A-Za-z0-9]` on folded text. -/
def isWordChar (c : Char) : Bool := c.isLower || c.isDigit

/-- The text may go on with no letter or digit. -/
def atBoundary : List Char → Bool
  | [] => true
  | c :: _ => !isWordChar c

/-- A keyword between boundaries, from here on; the flag tells whether a boundary comes first. -/
def findKeyword (keyword : List Char) : Bool → List Char → Bool
  | boundary, [] => boundary && keyword.isEmpty
  | boundary, c :: rest =>
    (boundary && keyword.isPrefixOf (c :: rest) &&
      atBoundary ((c :: rest).drop keyword.length)) ||
      findKeyword keyword (!isWordChar c) rest

/-- `_kw(*alternatives).search(text)`. -/
def kwSearch (alternatives : List String) (text : String) : Bool :=
  alternatives.any fun keyword => findKeyword keyword.toList true (text.toList.map foldCase)

/-- The parts between underscores. -/
def segments : List Char → List (List Char)
  | [] => [[]]
  | c :: rest =>
    if c = '_' then [] :: segments rest
    else match segments rest with
      | segment :: others => (c :: segment) :: others
      | [] => [[c]]

/-- The whitespace at which `str.split()` splits. -/
def isSpace (c : Char) : Bool :=
  let n := c.toNat
  (9 ≤ n && n ≤ 13) || (28 ≤ n && n ≤ 32) || n == 0x85 || n == 0xa0 || n == 0x1680 ||
    (0x2000 ≤ n && n ≤ 0x200a) || n == 0x2028 || n == 0x2029 || n == 0x202f || n == 0x205f ||
    n == 0x3000

/-! ## Rules -/

/-- One row of the rule table. Every row has one category. -/
structure Rule where
  keywords : List String
  category : PiiCategory
  deriving DecidableEq, Repr

/-- `_NAME_RULE_PATTERN` and its category. -/
def nameRule : Rule :=
  ⟨["name", "user_name", "customer_name", "display_name", "legal_name", "contact_name"], .contact⟩

/-- `_RULES`. The alternative `e_?mail` is its two spellings. -/
def rules : List Rule := [
  ⟨["email", "e_mail"], .contact⟩,
  ⟨["phone", "mobile", "fax"], .contact⟩,
  ⟨["address", "address_line", "address_street", "street"], .contact⟩,
  ⟨["first_name", "last_name", "middle_name", "full_name", "given_name", "family_name"], .contact⟩,
  nameRule,
  ⟨["zip", "zip_code", "postal_code"], .contact⟩,
  ⟨["city", "state", "country"], .contact⟩,
  ⟨["salary", "wage", "income"], .financial⟩,
  ⟨["balance", "revenue"], .financial⟩,
  ⟨["amount", "transaction_amount", "transaction_value"], .financial⟩,
  ⟨["card_number", "card_num", "card_pan", "pan"], .paymentCard⟩,
  ⟨["cvv", "cvc"], .paymentCard⟩,
  ⟨["iban"], .paymentCard⟩,
  ⟨["account_number", "bank_account", "routing_number", "sort_code"], .paymentCard⟩,
  ⟨["credit_card", "creditcard", "credit_card_no", "debit_card", "debitcard", "cardnumber",
    "card_no", "cardno", "cc_num", "ccnum", "cc_number", "ccnumber", "swift_code", "swift_bic",
    "bic"], .paymentCard⟩,
  ⟨["diagnosis", "medication", "treatment"], .health⟩,
  ⟨["icd9", "icd_9", "icd10", "icd_10", "cpt_code"], .health⟩,
  ⟨["phi", "mrn", "medical_record"], .health⟩,
  ⟨["allergy", "blood_type", "prescription", "lab_result", "symptom", "bmi",
    "vital_sign"], .health⟩,
  ⟨["patient", "insurance_id", "health_record"], .health⟩,
  ⟨["encounter_id", "visit_id", "admission_id", "discharge_id"], .health⟩,
  ⟨["insurance_member_id", "insurance_subscriber_id"], .health⟩,
  ⟨["genome", "genotype", "dna_seq", "rsid"], .genetic⟩,
  ⟨["fingerprint", "face_id", "face_hash", "face_embedding", "face_print", "face_vector",
    "voiceprint", "iris", "biometric"], .biometric⟩,
  ⟨["purchase_history", "browse_history", "clickstream", "click_stream", "event_log"], .behavioral⟩,
  ⟨["ip", "ip_addr", "ip_address", "client_ip", "remote_ip", "src_ip"], .onlineIdentifier⟩,
  ⟨["cookie_id", "device_id", "session_id", "idfa", "gaid"], .onlineIdentifier⟩,
  ⟨["aid", "google_aid", "fb_aid", "advertising_aid"], .onlineIdentifier⟩,
  ⟨["wallet_address", "blockchain_address", "crypto_address"], .onlineIdentifier⟩,
  ⟨["password", "passwd", "pwd"], .credential⟩,
  ⟨["api_key", "secret"], .credential⟩,
  ⟨["token", "refresh_token", "access_token", "session_id"], .credential⟩,
  ⟨["pass_hash", "pw_hash"], .credential⟩,
  ⟨["private_key", "seed_phrase", "mnemonic_phrase", "mnemonic"], .credential⟩,
  ⟨["pin", "pin_code", "recovery_code", "security_answer"], .credential⟩,
  ⟨["ssh_key", "kms_key", "encryption_key", "signing_key", "aws_access_key"], .credential⟩,
  ⟨["magic_link", "webauthn_credential", "totp_seed"], .credential⟩,
  ⟨["passwordhash", "pwhash", "passhash", "pwdhash", "apikey", "apisecret", "apitoken",
    "accesstoken", "refreshtoken", "authtoken", "bearertoken", "sessiontoken", "privatekey",
    "secretkey", "accesskey", "signingkey", "encryptionkey"], .credential⟩,
  ⟨["recovery_codes", "backup_code", "backup_codes", "seedphrase", "clientsecret"], .credential⟩,
  ⟨["ssn", "tin", "nino"], .governmentId⟩,
  ⟨["passport"], .governmentId⟩,
  ⟨["driver_license", "driver_licence", "drivers_license", "drivers_licence", "dl_number", "dl_no",
    "driver_license_number", "drivers_license_number"], .governmentId⟩,
  ⟨["tax_id"], .governmentId⟩,
  ⟨["national_id", "aadhar", "aadhaar", "voter_id", "ein"], .governmentId⟩,
  ⟨["npi", "provider_npi", "dea_number"], .governmentId⟩,
  ⟨["lat", "latitude", "lon", "lng", "longitude"], .location⟩,
  ⟨["location", "geolocation", "gps", "coords", "coord"], .location⟩,
  ⟨["dob", "date_of_birth", "birth_date", "birthdate"], .demographicProtected⟩,
  ⟨["race", "ethnicity", "religion"], .demographicProtected⟩,
  ⟨["orientation", "sexual_orientation", "gender_orientation"], .demographicProtected⟩,
  ⟨["political_party", "political_view", "political_affiliation",
    "trade_union"], .demographicProtected⟩,
  ⟨["age", "gender", "sex", "disability", "marital_status", "nationality",
    "veteran_status"], .demographicProtected⟩,
  ⟨["correo_electronico", "courriel"], .contact⟩,
  ⟨["telefonnummer", "numero_telefono", "numero_telephone"], .contact⟩,
  ⟨["kreditkartennummer", "numero_carte_credit", "numero_tarjeta_credito"], .paymentCard⟩,
  ⟨["sozialversicherungsnummer", "numero_seguridad_social",
    "numero_securite_sociale"], .governmentId⟩,
  ⟨["cpf"], .governmentId⟩,
  ⟨["cnpj"], .governmentId⟩,
  ⟨["dni", "nif", "nie", "codice_fiscale", "curp", "nric", "bsn", "pesel"], .governmentId⟩,
  ⟨["social_security_number", "social_security_no", "national_insurance_number",
    "national_insurance_no", "social_insurance_number", "social_insurance_no", "passportno",
    "passportnumber", "vat_number", "vat_numbers", "vat_no", "vat_id",
    "vat_registration"], .governmentId⟩]

/-- `_NON_PII_NAME_PREFIXES`. -/
def nonPiiNamePrefixes : List String := [
  "product", "brand", "category", "language", "currency", "tag", "event", "feature", "setting",
  "field", "column", "table", "database", "service", "process", "task", "job", "file", "directory",
  "folder", "bucket", "device", "app", "module", "plugin", "report", "dashboard", "widget",
  "channel", "topic", "queue", "host", "cluster"]

/-- `_NON_PII_NAME_TABLE_NAMES`. -/
def nonPiiNameTableNames : List String := nonPiiNamePrefixes ++ [
  "products", "brands", "categories", "languages", "currencies", "tags", "events", "features",
  "settings", "fields", "columns", "tables", "databases", "services", "processes", "tasks", "jobs",
  "files", "directories", "folders", "buckets", "devices", "apps", "modules", "plugins", "reports",
  "dashboards", "widgets", "channels", "topics", "queues", "hosts", "clusters"]

/-- `_FK_SAFE_CATEGORIES`. -/
def fkSafeCategories : List PiiCategory :=
  [.credential, .onlineIdentifier, .governmentId, .health, .demographicProtected, .behavioral,
    .location]

/-- `_INTEGER_TYPE_PREFIXES`. -/
def integerTypePrefixes : List String := [
  "int", "integer", "bigint", "smallint", "tinyint", "mediumint", "int2", "int4", "int8", "serial",
  "bigserial", "smallserial"]

/-- A full match of `_NON_PII_NAME_RE`. -/
def isNonPiiName (columnName : String) : Bool :=
  nonPiiNamePrefixes.any fun noun => columnName.toList.map foldCase = (noun ++ "_name").toList

/-- A full match of `_FK_SHAPE_RE`: segments of letters and digits, the first one after a
letter, the last one `id`. -/
def isFkShape (columnName : String) : Bool :=
  match segments (columnName.toList.map foldCase) with
  | (c :: first) :: second :: others =>
    c.isLower && first.all isWordChar &&
      (second :: others).all (fun segment => !segment.isEmpty && segment.all isWordChar) &&
      (second :: others).getLast? = some ['i', 'd']
  | _ => false

/-- `_is_integer_type`. -/
def isIntegerType (columnType : String) : Bool :=
  let pruned := (columnType.toList.takeWhile (· ≠ '(')).takeWhile (· ≠ '[')
  let token := (pruned.dropWhile isSpace).takeWhile (!isSpace ·)
  integerTypePrefixes.any fun word => token.map lowerChar = word.toList

/-- The S1 guard: the name rule says nothing about this column. -/
def skipNameRule (columnName : String) (tableName : Option String) : Bool :=
  isNonPiiName columnName ||
    match tableName with
    | none => false
    | some table => lower columnName = "name".toList &&
        nonPiiNameTableNames.any fun name => lower table = name.toList

/-- The categories of the matching rules. -/
def matchedCategories (columnName : String) (skipName : Bool) : List PiiCategory :=
  ((rules.filter fun rule => !(skipName && rule = nameRule) &&
    kwSearch rule.keywords columnName).map (·.category)).eraseDups

/-- The S2 guard: an integer foreign key. -/
def isIntegerFk (columnName : String) (columnType : Option String) (isPrimaryKey : Bool) : Bool :=
  match columnType with
  | none => false
  | some type => !isPrimaryKey && isIntegerType type && isFkShape columnName

/-- `matched`, after both guards. -/
def keptCategories (columnName : String) (columnType : Option String) (isPrimaryKey : Bool)
    (tableName : Option String) : List PiiCategory :=
  let matched := matchedCategories columnName (skipNameRule columnName tableName)
  if isIntegerFk columnName columnType isPrimaryKey then matched.filter (· ∈ fkSafeCategories)
  else matched

/-- `classify_column`. The shape patterns are not read. -/
def classifyColumn (columnName : String) (columnType : Option String := none)
    (isPrimaryKey : Bool := false) (tableName : Option String := none)
    (_shapePatterns : List String := []) : ColumnPiiTag :=
  match keptCategories columnName columnType isPrimaryKey tableName with
  | [] => .untagged
  | categories => ⟨.pii, categories⟩

/-- A column is sensitive exactly when it has a category. -/
theorem classifyColumn_sensitivity (columnName : String) (columnType : Option String)
    (isPrimaryKey : Bool) (tableName : Option String) (shapePatterns : List String) :
    (classifyColumn columnName columnType isPrimaryKey tableName shapePatterns).sensitivity = .pii ↔
      (classifyColumn columnName columnType isPrimaryKey tableName shapePatterns).categories ≠
        [] := by
  unfold classifyColumn
  split
  · simp [ColumnPiiTag.untagged]
  · next hne => simpa using hne

example : classifyColumn "user_EMAIL" = ⟨.pii, [.contact]⟩ ∧
    classifyColumn "email_id" (some "BIGINT (20)") = .untagged ∧
    classifyColumn "name" none false (some "Products") = .untagged := by decide +kernel

end SchemaBrain.Pii
