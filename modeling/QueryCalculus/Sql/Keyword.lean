import QueryCalculus.Text.LowerCase

/-!
# Words reserved by SQL

- `keywords` : the words that cannot be used as identifiers without quotes
- `isKeyword` : membership in any case
-/

namespace QueryCalculus
namespace Sql

def keywords : List String :=
  ["ABS", "ALL", "ALLOCATE", "ALTER", "AND", "ANY", "ARE", "ARRAY", "AS", "ASC", "ASENSITIVE",
    "ASYMMETRIC", "AT", "ATOMIC", "AUTHORIZATION", "AVG", "BEGIN", "BETWEEN", "BIGINT", "BINARY",
    "BLOB", "BOOLEAN", "BOTH", "BY", "CALL", "CALLED", "CASCADED", "CASE", "CAST", "CEIL",
    "CHAR", "CHARACTER", "CHECK", "CLOB", "CLOSE", "COLLATE", "COLUMN", "COMMIT", "CONDITION",
    "CONNECT", "CONSTRAINT", "CONVERT", "CORRESPONDING", "COUNT", "CREATE", "CROSS", "CUBE",
    "CURRENT", "CURSOR", "CYCLE", "DATE", "DAY", "DEALLOCATE", "DEC", "DECIMAL", "DECLARE",
    "DEFAULT", "DELETE", "DEREF", "DESC", "DESCRIBE", "DETERMINISTIC", "DISCONNECT", "DISTINCT",
    "DO", "DOUBLE", "DROP", "DYNAMIC", "EACH", "ELEMENT", "ELSE", "END", "ESCAPE", "EXCEPT",
    "EXEC", "EXECUTE", "EXISTS", "EXTERNAL", "FALSE", "FETCH", "FILTER", "FLOAT", "FOR",
    "FOREIGN", "FREE", "FROM", "FULL", "FUNCTION", "GET", "GLOBAL", "GRANT", "GROUP", "GROUPING",
    "HAVING", "HOLD", "HOUR", "IDENTITY", "IF", "IN", "INDICATOR", "INNER", "INOUT",
    "INSENSITIVE", "INSERT", "INT", "INTEGER", "INTERSECT", "INTERVAL", "INTO", "IS", "JOIN",
    "LANGUAGE", "LARGE", "LATERAL", "LEADING", "LEFT", "LIKE", "LIMIT", "LOCAL", "LOCALTIME",
    "MATCH", "MAX", "MEMBER", "MERGE", "METHOD", "MIN", "MINUTE", "MOD", "MODIFIES", "MODULE",
    "MONTH", "MULTISET", "NATIONAL", "NATURAL", "NCHAR", "NCLOB", "NEW", "NO", "NONE", "NOT",
    "NULL", "NUMERIC", "OF", "OFFSET", "OLD", "ON", "ONLY", "OPEN", "OR", "ORDER", "OUT",
    "OUTER", "OVER", "OVERLAPS", "PARAMETER", "PARTITION", "POSITION", "PRECISION", "PREPARE",
    "PRIMARY", "PROCEDURE", "RANGE", "READS", "REAL", "RECURSIVE", "REF", "REFERENCES",
    "REFERENCING", "RELEASE", "RETURN", "RETURNS", "REVOKE", "RIGHT", "ROLLBACK", "ROLLUP",
    "ROW", "ROWS", "SAVEPOINT", "SCOPE", "SCROLL", "SEARCH", "SECOND", "SELECT", "SENSITIVE",
    "SESSION_USER", "SET", "SIMILAR", "SMALLINT", "SOME", "SPECIFIC", "SQL", "SQLEXCEPTION",
    "SQLSTATE", "SQLWARNING", "START", "STATIC", "SUBMULTISET", "SUM", "SYMMETRIC", "SYSTEM",
    "SYSTEM_USER", "TABLE", "THEN", "TIME", "TIMESTAMP", "TO", "TRAILING", "TRANSLATION",
    "TREAT", "TRIGGER", "TRUE", "UNION", "UNIQUE", "UNKNOWN", "UNNEST", "UPDATE", "USER",
    "USING", "VALUE", "VALUES", "VARCHAR", "VARYING", "WHEN", "WHENEVER", "WHERE", "WINDOW",
    "WITH", "WITHIN", "WITHOUT", "YEAR"]

def isKeyword (word : String) : Bool :=
  keywords.any (Text.sameIgnoringAsciiCase · word)

end Sql
end QueryCalculus
