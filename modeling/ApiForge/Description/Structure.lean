import ApiForge.Description.Shape

/-!
# The structure of API descriptions

The shapes of the parts of a description document.

* `Part` names the parts, `shapeOf` gives their shapes.
* `isDescription` decides whether a document is a description.
-/

namespace ApiForge

/-- A part of a description document. -/
inductive Part where
  | description
  | info
  | externalDocs
  | server
  | pathItem
  | operation
  | parameter
  | header
  | requestBody
  | response
  | mediaType
  | sample
  | link
  | securityScheme
  | components
  | schema

namespace Part

/-- Shapes of descriptions. -/
abbrev S := ValueShape Part

/-- A member that has to be there. -/
def need (name : String) (shape : S) : String × Demand × S := (name, .required, shape)

/-- A member that may be left out or be `null`. -/
def may (name : String) (shape : S) : String × Demand × S := (name, .optional, shape)

/-- A member that may be left out. -/
def mayNotNull (name : String) (shape : S) : String × Demand × S := (name, .defaulted, shape)

/-- Members that may be texts. -/
def mayTexts (names : List String) : List (String × Demand × S) := names.map (may · .text)

/-- Members that may be flags. -/
def mayFlags (names : List String) : List (String × Demand × S) := names.map (may · .flag)

/-- A reference to a thing defined elsewhere. -/
def reference : S := .record (need "$ref" .text :: mayTexts ["summary", "description"])

/-- A reference or the thing itself. -/
def orReference (shape : S) : S := .either reference shape

/-- What security a call needs. -/
def security : S := .list (.map (.list .text))

/-- A schema, where a reference and an inline one are allowed. -/
def schemaShape : S := orReference (.named .schema)

/-- A schema or a flag. -/
def schemaOrFlag : S := .either .flag schemaShape

/-- The members that parameters and headers share. -/
def valueFields : List (String × Demand × S) :=
  mayTexts ["description"] ++ mayFlags ["required", "deprecated", "allowEmptyValue", "explode", "allowReserved"] ++
    [may "style" (.word ["matrix", "label", "form", "simple", "spaceDelimited", "pipeDelimited", "deepObject"]),
      may "schema" schemaShape, mayNotNull "examples" (.map (orReference (.named .sample))),
      may "content" (.map (.named .mediaType))]

/-- A way to obtain access. -/
def flow (urls : List String) : S :=
  .record (urls.map (need · .address) ++ [may "refreshUrl" .address, mayNotNull "scopes" (.map .text)])

/-- A security scheme of some kind. -/
def scheme (kind : String) (fields : List (String × Demand × S)) : S :=
  .record (need "type" (.word [kind]) :: may "description" .text :: fields)

/-- The members that links share. -/
def linkFields : List (String × Demand × S) :=
  [mayNotNull "parameters" (.map .text), may "description" .text, may "server" (.named .server)]

/-- The types that a schema may have. -/
def typeWord : S := .word ["boolean", "integer", "number", "string", "array", "object", "null"]

/-- The members of a schema. -/
def schemaFields : List (String × Demand × S) :=
  [may "type" (.either typeWord (.list typeWord))] ++
    ["allOf", "anyOf", "oneOf", "prefixItems"].map (mayNotNull · (.list schemaShape)) ++
    ["items", "additionalProperties"].map (may · schemaOrFlag) ++
    [mayNotNull "properties" (.map schemaShape)] ++
    ["enum", "examples"].map (mayNotNull · (.list .any)) ++
    ["minLength", "maxLength", "minItems", "maxItems", "minProperties", "maxProperties"].map (may · .natural) ++
    ["minimum", "maximum", "exclusiveMinimum", "exclusiveMaximum", "multipleOf"].map (may · .number) ++
    mayTexts ["pattern", "format", "title", "description"] ++
    [mayNotNull "required" (.list .text)] ++
    mayFlags ["uniqueItems", "deprecated", "readOnly", "writeOnly"] ++
    [may "discriminator" (.record [need "propertyName" .text, may "mapping" (.map .text)])]

/-- The shape of a part. -/
def shapeOf : Part → S
  | description => .record [need "openapi" .text, need "info" (.named info),
      mayNotNull "servers" (.list (.named server)), may "paths" (.map (.named pathItem)),
      may "components" (.named components), mayNotNull "security" security,
      mayNotNull "tags" (.list (.record [need "name" .text, may "description" .text])),
      mayNotNull "webhooks" (.map (.named pathItem)), may "externalDocs" (.named externalDocs)]
  | info => .record ([need "title" .text, need "version" .text] ++ mayTexts ["summary", "description"] ++
      [may "termsOfService" .address,
        may "contact" (.record (may "url" .address :: mayTexts ["name", "email"])),
        may "license" (.record [need "name" .text, may "identifier" .text, may "url" .address])])
  | externalDocs => .record [need "url" .address, may "description" .text]
  | server => .record [need "url" .text, may "description" .text,
      mayNotNull "variables" (.map (.record [need "default" .text, mayNotNull "enum" (.list .text),
        may "description" .text]))]
  | pathItem => .record (mayTexts ["$ref", "summary", "description"] ++
      ["get", "put", "post", "delete", "options", "head", "patch", "trace"].map (may · (.named operation)) ++
      [mayNotNull "servers" (.list (.named server)), mayNotNull "parameters" (.list (orReference (.named parameter)))])
  | operation => .record (mayTexts ["summary", "description", "operationId"] ++
      [mayNotNull "tags" (.list .text), may "externalDocs" (.named externalDocs),
        mayNotNull "parameters" (.list (orReference (.named parameter))),
        may "requestBody" (orReference (.named requestBody)),
        may "responses" (.map (orReference (.named response))), may "deprecated" .flag,
        mayNotNull "security" security, mayNotNull "servers" (.list (.named server)),
        mayNotNull "callbacks" (.map (.record []))])
  | parameter => .record (need "name" .text :: need "in" (.word ["path", "query", "header", "cookie"]) :: valueFields)
  | header => .record valueFields
  | requestBody => .record [need "content" (.map (.named mediaType)), may "description" .text, may "required" .flag]
  | response => .record [may "description" .text, mayNotNull "headers" (.map (orReference (.named header))),
      mayNotNull "content" (.map (.named mediaType)), mayNotNull "links" (.map (orReference (.named link)))]
  | mediaType => .record [may "schema" schemaShape,
      mayNotNull "encoding" (.map (.record (mayTexts ["contentType", "style"] ++
        mayFlags ["explode", "allowReserved"] ++ [mayNotNull "headers" (.map (orReference (.named header)))])))]
  | sample => .record (mayTexts ["summary", "description", "externalValue"])
  | link => .either (.record (need "operationRef" .text :: linkFields))
      (.record (need "operationId" .text :: linkFields))
  | securityScheme => .either (scheme "apiKey" [need "name" .text, need "in" .text])
      (.either (scheme "http" [need "scheme" .text, may "bearerFormat" .text])
        (.either (scheme "oauth2" [need "flows" (.record [may "implicit" (flow ["authorizationUrl"]),
            may "password" (flow ["tokenUrl"]), may "clientCredentials" (flow ["tokenUrl"]),
            may "authorizationCode" (flow ["authorizationUrl", "tokenUrl"])])])
          (.either (scheme "openIdConnect" [need "openIdConnectUrl" .text]) (scheme "mutualTLS" []))))
  | components => .record [mayNotNull "schemas" (.map schemaShape),
      mayNotNull "responses" (.map (orReference (.named response))),
      mayNotNull "parameters" (.map (orReference (.named parameter))),
      mayNotNull "examples" (.map (orReference (.named sample))),
      mayNotNull "requestBodies" (.map (orReference (.named requestBody))),
      mayNotNull "headers" (.map (orReference (.named header))),
      mayNotNull "pathItems" (.map (orReference (.named pathItem))),
      mayNotNull "securitySchemes" (.map (orReference (.named securityScheme))),
      mayNotNull "links" (.map (orReference (.named link))),
      mayNotNull "callbacks" (.map (.record []))]
  | schema => .record schemaFields

end Part

/-- Whether a document is a description. One step into a document takes at most eight steps through shapes. -/
def isDescription (document : Json) : Bool :=
  (ValueShape.named Part.description).accepts Part.shapeOf (8 * (document.depth + 2)) document

end ApiForge
